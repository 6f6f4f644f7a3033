/-
  Query/Optimizer/UsageCounting.lean --- `column_usage`, as the visits of `optimizer.cc`
  raise and lower it.

  The counters are a state here, and the visits log what they do with them.  A `size_t` is a
  number, and a log without a counter lowered from zero has no subtraction that cuts off.
-/
import Iic3413Db.Foundation.Procedures
import Iic3413Db.Query.Optimizer.NeededColumns

set_option autoImplicit false

namespace Iic3413Db.Query

open Iic3413Db.Foundation Iic3413Db.RelationalModel
open Iic3413Db.System (Catalog TableId)
open Iic3413Db.Storage (TxID)

/-! ## The log -/

/-- What a visit does with `column_usage`, and what it looks for. -/
inductive UsageEvent where
  /-- `column_usage[column] -= 1`, with the counter before it -/
  | lowered (column : Column) (before : Nat)
  /-- the search for a column of an expression or a projection among those of the child -/
  | searched (columns : List Column) (column : Column)
  /-- the end of a visit below the root, with the counters at its start and at its end -/
  | left (entry exit : ColumnUsage)

namespace UsageEvent

/-- The counter was positive; the column is found; the counters are those at the start. -/
def Sound : UsageEvent → Prop
  | .lowered _ before => 0 < before
  | .searched columns column => ∃ i, findColumn columns column = some i
  | .left entry exit => exit = entry

end UsageEvent

/-- `column_usage`, and what was done with it. -/
structure Counting where
  usage : ColumnUsage
  events : List UsageEvent

namespace Counting

/-- Before the visit of the root. -/
def start : Counting := ⟨fun _ => 0, []⟩

/-- Add to the log. -/
def log (s : Counting) (events : List UsageEvent) : Counting :=
  { s with events := s.events ++ events }

/-- `column_usage[column] -= 1`. -/
def lowerOne (s : Counting) (column : Column) : Counting :=
  ⟨s.usage.remove column, s.events ++ [.lowered column (s.usage column.key)]⟩

def Sound (s : Counting) : Prop := ∀ e ∈ s.events, e.Sound

theorem Sound.append {s : Counting} {events : List UsageEvent} {usage : ColumnUsage}
    (h : s.Sound) (hnew : ∀ e ∈ events, e.Sound) : Sound ⟨usage, s.events ++ events⟩ := by
  intro e he
  rcases List.mem_append.mp he with he | he
  · exact h e he
  · exact hnew e he

end Counting

/-! ## Visits -/

/-- A call of the visitor. -/
abbrev Visit (α : Type) : Type := Procedure Counting Fault α

/-- `column_usage[column] += 1`, for each column. -/
def raiseUsage (columns : List Column) : Visit Unit := fun s =>
  (some (.ok ()), { s with usage := s.usage.addColumns columns })

/-- `column_usage[column] -= 1`, for each column. -/
def lowerUsage (columns : List Column) : Visit Unit := fun s =>
  (some (.ok ()), columns.foldl Counting.lowerOne s)

/-- The searches for the columns `wanted`. -/
def searchAll (columns wanted : List Column) : Visit Unit := fun s =>
  (some (.ok ()), s.log (wanted.map (UsageEvent.searched columns)))

/-- `accept_visitor` of a plan below the root. -/
def visitBelow (visit : Visit QueryIter) : Visit QueryIter := fun s =>
  match visit s with
  | (some (.ok it), s') => (some (.ok it), s'.log [.left s.usage s'.usage])
  | failed => failed

/-- The columns of the pairs. -/
def pairColumns (joins : List JoinPair) : List Column := joins.flatMap fun p => [p.1, p.2]

/-- The loop over the children after the first. -/
def visitChainRest (step : ColumnUsage → QueryIter → QueryIter → QueryIter) (it : QueryIter) :
    List (Visit QueryIter) → Visit QueryIter
  | [] => pure it
  | visit :: visits => do
      let rhs ← visitBelow visit
      let it ← Procedure.ofExcept fun s => .ok (step s.usage it rhs)
      visitChainRest step it visits

/-- The visits of the children, each of them joined to those before. -/
def visitChain (empty : Fault) (step : ColumnUsage → QueryIter → QueryIter → QueryIter) :
    List (Visit QueryIter) → Visit QueryIter
  | [] => Procedure.ofExcept fun _ => .error empty
  | visit :: visits => do
      let it ← visitBelow visit
      visitChainRest step it visits

/-- The child with an index. -/
def visitAt (visits : List (Visit QueryIter)) (i : Nat) : Visit QueryIter :=
  match visits[i]? with
  | some visit => visit
  | none => Procedure.ofExcept fun _ => .error (.undefinedBehaviour "join.children[idx]")

section Visitor

variable (catalog : Catalog) (txId : TxID) (scans : TableId → Nat → List Record)
  (likeMatch : List UInt8 → List UInt8 → Bool)
  (joinOrder : List LogicalPlan → List JoinPair → List Nat)

/-- The loop over the expressions of a selection, after the visit of its child. -/
def lowerExpressions (columns : List Column) : List ExprPlan → Visit (List Expr)
  | [] => pure []
  | e :: es => do
      lowerUsage e.getColumns
      searchAll columns e.mentions
      let expr ← Procedure.ofExcept fun _ => lowerExpr likeMatch columns e
      let exprs ← lowerExpressions columns es
      pure (expr :: exprs)

mutual

/-- `accept_visitor`, with the counters. -/
def countingVisit : LogicalPlan → Visit QueryIter
  | .relation tableAlias table =>
      Procedure.ofExcept fun s => visitRelation catalog txId scans s.usage tableAlias table
  | .selection child expressions => do
      raiseUsage (expressions.flatMap ExprPlan.getColumns)
      let it ← visitBelow (countingVisit child)
      let lowered ← lowerExpressions likeMatch it.getColumns expressions
      pure (if lowered.isEmpty then it else .selection it lowered)
  | .cartesianProduct children =>
      if children.length < 2 then
        Procedure.ofExcept fun _ => .error (.assertFailed "cartesian_product.children.size() >= 2")
      else
        visitChain (.undefinedBehaviour "cartesian_product.children[0]") productStep
          (countingVisits children)
  | .join children joins => do
      raiseUsage (pairColumns joins)
      let order ← Procedure.ofExcept fun _ => beamSearchJoinOrder joinOrder children joins
      let it ← visitChain (.undefinedBehaviour "join.children[0]") (fun usage => joinStep usage joins)
        (order.map (visitAt (countingVisits children)))
      lowerUsage (pairColumns joins)
      pure it
  | .leftOuterJoin _ lchild rchild joins => do
      raiseUsage (pairColumns joins)
      let lhs ← visitBelow (countingVisit lchild)
      let rhs ← visitBelow (countingVisit rchild)
      let it ← Procedure.ofExcept fun s =>
        let columns := outerColumns s.usage joins lhs rhs
        requireEqualities columns (.leftOuterJoin lhs rhs columns Record.empty false false)
      lowerUsage (pairColumns joins)
      pure it
  | .fullOuterJoin _ lchild rchild joins => do
      raiseUsage (pairColumns joins)
      let lhs ← visitBelow (countingVisit lchild)
      let rhs ← visitBelow (countingVisit rchild)
      let it ← Procedure.ofExcept fun s =>
        let columns := outerColumns s.usage joins lhs rhs
        requireEqualities columns
          (.fullOuterJoin lhs rhs columns Record.empty false false false 0 [])
      lowerUsage (pairColumns joins)
      pure it
  | .projection child distinct limit columns =>
      if distinct then
        Procedure.ofExcept fun _ => .error (.notImplementedException "Projection with DISTINCT")
      else do
        raiseUsage columns
        let it ← visitBelow (countingVisit child)
        -- `Projection::next` makes these searches, for each record
        searchAll it.getColumns columns
        pure (.projection it columns limit 0)

/-- The visits of the children of a product or a join. -/
def countingVisits : List LogicalPlan → List (Visit QueryIter)
  | [] => []
  | plan :: plans => countingVisit plan :: countingVisits plans

end

end Visitor

/-! ## Visits that follow the plain ones -/

/-- The assertion of the search for a column. -/
def indexFault : Fault := .assertFailed "index != -1"

/-- From the state, the visit ends as `r` says and, if it returns, with these counters; it makes
no assertion about an index fail, and its log stays sound. -/
structure Follows {α : Type} (x : Visit α) (s : Counting) (r : Outcome α) (usage : ColumnUsage) :
    Prop where
  result : (x s).1 = some r
  usage : ∀ a, r = .ok a → (x s).2.usage = usage
  found : r ≠ .error indexFault
  sound : s.Sound → (x s).2.Sound

section Rules

variable {α β : Type} {x : Visit α} {f : α → Visit β} {s : Counting} {r : Outcome α}
  {g : α → Outcome β} {usage usage' : ColumnUsage}

theorem Follows.bind (hx : Follows x s r usage)
    (hf : ∀ a, r = .ok a → ∀ t : Counting, t.usage = usage → Follows (f a) t (g a) usage') :
    Follows (x >>= f) s (r >>= g) usage' := by
  cases hrun : x s with
  | mk out t =>
      have hresult := hx.result
      have hsound := hx.sound
      have husage := hx.usage
      rw [hrun] at hresult hsound husage
      obtain rfl : out = some r := hresult
      cases r with
      | error e =>
          have heq : (x >>= f) s = (some (.error e), t) := Procedure.bind_error hrun
          refine ⟨?_, fun b hb => (by cases hb), fun h => ?_, ?_⟩
          · rw [heq]
            rfl
          · exact hx.found (congrArg Except.error (Except.error.inj h))
          · rw [heq]
            exact hsound
      | ok a =>
          have heq : (x >>= f) s = f a t := Procedure.bind_ok hrun
          have hrest := hf a rfl t (husage a rfl)
          refine ⟨?_, ?_, hrest.found, fun h => ?_⟩
          · rw [heq]
            exact hrest.result
          · rw [heq]
            exact hrest.usage
          · rw [heq]
            exact hrest.sound (hsound h)

/-- A first call that returns. -/
theorem Follows.step {a : α} {r : Outcome β} (hx : Follows x s (.ok a) usage)
    (hf : ∀ t : Counting, t.usage = usage → Follows (f a) t r usage') :
    Follows (x >>= f) s r usage' := by
  have hbind : ((.ok a : Outcome α) >>= fun _ => r) = r := Outcome.ok_bind a _
  rw [← hbind]
  refine hx.bind fun b hb t ht => ?_
  cases hb
  exact hf t ht

theorem follows_pure (a : α) (hs : s.usage = usage) :
    Follows (pure a : Visit α) s (.ok a) usage :=
  ⟨rfl, fun _ _ => hs, fun h => (by cases h), id⟩

theorem follows_ofExcept {y : Counting → Outcome α} (h : y s ≠ .error indexFault)
    (hs : s.usage = usage) : Follows (Procedure.ofExcept y) s (y s) usage :=
  ⟨rfl, fun _ _ => hs, h, id⟩

theorem follows_raise (columns : List Column) :
    Follows (raiseUsage columns) s (.ok ()) (s.usage.addColumns columns) :=
  ⟨rfl, fun _ _ => rfl, fun h => (by cases h), id⟩

theorem remove_addColumns (usage : ColumnUsage) (c : Column) (cs : List Column) :
    (usage.addColumns (c :: cs)).remove c = usage.addColumns cs := by
  funext k
  have hkeys : (c :: cs).map Column.key = [c.key] ++ cs.map Column.key := rfl
  rw [ColumnUsage.remove_apply, addColumns_apply, addColumns_apply, hkeys, List.count_append]
  omega

theorem addColumns_append (usage : ColumnUsage) (cs ds : List Column) :
    usage.addColumns (cs ++ ds) = (usage.addColumns ds).addColumns cs := by
  funext k
  rw [addColumns_apply, addColumns_apply, addColumns_apply, List.map_append, List.count_append]
  omega

/-- The counters of columns that were raised before. -/
theorem follows_lower {columns : List Column} (hs : s.usage = usage.addColumns columns) :
    Follows (lowerUsage columns) s (.ok ()) usage := by
  induction columns generalizing s with
  | nil => exact ⟨rfl, fun _ _ => hs, fun h => (by cases h), id⟩
  | cons c cs ih =>
      have hpos : 0 < s.usage c.key := by
        rw [hs]
        exact of_decide_eq_true (keeps_addColumns.mpr (.inr ⟨c, List.mem_cons_self, rfl⟩))
      have hrest : (s.lowerOne c).usage = usage.addColumns cs := by
        rw [← remove_addColumns usage c cs, ← hs]
        rfl
      have hcs := ih hrest
      refine ⟨rfl, hcs.usage, hcs.found, fun h => hcs.sound (h.append fun e he => ?_)⟩
      obtain rfl := List.mem_singleton.mp he
      exact hpos

theorem follows_search {columns wanted : List Column}
    (h : ∀ c ∈ wanted, c.key ∈ columns.map Column.key) (hs : s.usage = usage) :
    Follows (searchAll columns wanted) s (.ok ()) usage := by
  refine ⟨rfl, fun _ _ => hs, fun h => (by cases h), fun hsound => hsound.append fun e he => ?_⟩
  obtain ⟨c, hc, rfl⟩ := List.mem_map.mp he
  exact Option.isSome_iff_exists.mp (findColumn_isSome.mpr (h c hc))

theorem Follows.below {x : Visit QueryIter} {r : Outcome QueryIter} (h : Follows x s r usage)
    (hs : s.usage = usage) : Follows (visitBelow x) s r usage := by
  cases hrun : x s with
  | mk out t =>
      have hresult := h.result
      have hsound := h.sound
      have husage := h.usage
      rw [hrun] at hresult hsound husage
      obtain rfl : out = some r := hresult
      cases r with
      | error e =>
          have heq : visitBelow x s = (some (.error e), t) := by rw [visitBelow, hrun]
          refine ⟨?_, fun b hb => (by cases hb), h.found, ?_⟩
          · rw [heq]
          · rw [heq]
            exact hsound
      | ok it =>
          have heq : visitBelow x s = (some (.ok it), t.log [.left s.usage t.usage]) := by
            rw [visitBelow, hrun]
          refine ⟨?_, ?_, h.found, fun hstart => ?_⟩
          · rw [heq]
          · rw [heq]
            exact husage
          · rw [heq]
            refine (hsound hstart).append fun e he => ?_
            obtain rfl := List.mem_singleton.mp he
            exact (husage it rfl).trans hs.symm

end Rules

/-! ## Expressions -/

section Expressions

variable {likeMatch : List UInt8 → List UInt8 → Bool} {columns : List Column} {usage : ColumnUsage}
  {s : Counting}

theorem lowerColumn_found {c : Column} (h : c.key ∈ columns.map Column.key) :
    lowerColumn columns c ≠ .error indexFault := by
  obtain ⟨i, hi⟩ := Option.isSome_iff_exists.mp (findColumn_isSome.mpr h)
  intro herror
  rw [lowerColumn, hi] at herror
  cases herror

/-- The lowering of an expression whose columns are there. -/
theorem lowerExpr_found {e : ExprPlan} (h : ∀ c ∈ e.mentions, c.key ∈ columns.map Column.key) :
    lowerExpr likeMatch columns e ≠ .error indexFault := by
  induction e with
  | null =>
      intro herror
      cases herror
  | term value => exact fun herror => by cases herror
  | column col => exact lowerColumn_found (h col List.mem_cons_self)
  | between col _ _ | like col _ =>
      refine Outcome.bind_ne_error (lowerColumn_found (h col List.mem_cons_self)) ?_
      exact fun child _ herror => by cases herror
  | equals lhs rhs ihl ihr | notEquals lhs rhs ihl ihr | less lhs rhs ihl ihr
  | lessOrEquals lhs rhs ihl ihr | arithmetic lhs _ rhs ihl ihr =>
      refine Outcome.bind_ne_error (ihl fun c hc => h c (List.mem_append_left _ hc)) ?_
      intro l _
      refine Outcome.bind_ne_error (ihr fun c hc => h c (List.mem_append_right _ hc)) ?_
      exact fun r _ herror => by cases herror

/-- The loop takes back what was raised for its expressions. -/
theorem follows_expressions {es : List ExprPlan}
    (h : ∀ e ∈ es, ∀ c ∈ e.mentions, c.key ∈ columns.map Column.key)
    (hs : s.usage = usage.addColumns (es.flatMap ExprPlan.getColumns)) :
    Follows (lowerExpressions likeMatch columns es) s (es.mapM (lowerExpr likeMatch columns))
      usage := by
  induction es generalizing s with
  | nil => exact follows_pure [] hs
  | cons e es ih =>
      obtain ⟨he, hes⟩ := List.forall_mem_cons.mp h
      rw [List.flatMap_cons, addColumns_append] at hs
      rw [Outcome.mapM_cons]
      refine (follows_lower hs).step fun s₁ hs₁ => ?_
      refine (follows_search he hs₁).step fun s₂ hs₂ => ?_
      refine (follows_ofExcept (lowerExpr_found he) hs₂).bind fun expr _ s₃ hs₃ => ?_
      exact (ih hes hs₃).bind fun exprs _ s₄ hs₄ => follows_pure (expr :: exprs) hs₄

end Expressions

/-! ## Chains -/

section Chains

variable {step : ColumnUsage → QueryIter → QueryIter → QueryIter} {usage : ColumnUsage}
  {s : Counting} {visits : List (Visit QueryIter)} {outcomes : List (Outcome QueryIter)}

/-- The visit follows the outcome whenever the counters are these. -/
def FollowsAt (usage : ColumnUsage) (visit : Visit QueryIter) (outcome : Outcome QueryIter) : Prop :=
  ∀ s : Counting, s.usage = usage → Follows visit s outcome usage

theorem follows_chainRest {it : QueryIter} (h : List.Forall₂ (FollowsAt usage) visits outcomes)
    (hs : s.usage = usage) :
    Follows (visitChainRest step it visits) s
      (outcomes.mapM id >>= fun its => .ok (its.foldl (step usage) it)) usage := by
  induction h generalizing s it with
  | nil => exact follows_pure it hs
  | cons hvisit _ ih =>
      rw [Outcome.mapM_cons, bind_assoc]
      refine ((hvisit s hs).below hs).bind fun rhs _ s₁ hs₁ => ?_
      rw [bind_assoc]
      have hstep : Follows (Procedure.ofExcept fun s : Counting => .ok (step s.usage it rhs)) s₁
          (.ok (step usage it rhs)) usage := by
        rw [← hs₁]
        exact follows_ofExcept (fun herror => by cases herror) rfl
      exact hstep.step fun s₂ hs₂ => ih hs₂

/-- The children, each joined to those before. -/
def chainOf (empty : Fault) (step : QueryIter → QueryIter → QueryIter) :
    List QueryIter → Outcome QueryIter
  | [] => .error empty
  | it :: its => .ok (its.foldl step it)

theorem follows_chain (empty : Fault) (step : ColumnUsage → QueryIter → QueryIter → QueryIter)
    (hempty : empty ≠ indexFault) (h : List.Forall₂ (FollowsAt usage) visits outcomes)
    (hs : s.usage = usage) :
    Follows (visitChain empty step visits) s
      (outcomes.mapM id >>= chainOf empty (step usage)) usage := by
  cases h with
  | nil => exact follows_ofExcept (fun herror => hempty (Except.error.inj herror)) hs
  | cons hvisit hrest =>
      rw [Outcome.mapM_cons, bind_assoc]
      refine ((hvisit s hs).below hs).bind fun it _ s₁ hs₁ => ?_
      rw [bind_assoc]
      exact follows_chainRest hrest hs₁

end Chains

/-! ## Every visit -/

section Visits

variable {catalog : Catalog} {txId : TxID} {scans : TableId → Nat → List Record}
  {likeMatch : List UInt8 → List UInt8 → Bool}
  {joinOrder : List LogicalPlan → List JoinPair → List Nat} {usage : ColumnUsage}

theorem countingVisits_eq (plans : List LogicalPlan) :
    countingVisits catalog txId scans likeMatch joinOrder plans =
      plans.map (countingVisit catalog txId scans likeMatch joinOrder) := by
  induction plans with
  | nil => rw [countingVisits, List.map_nil]
  | cons plan plans ih => rw [countingVisits, ih, List.map_cons]

theorem addColumns_pairs (usage : ColumnUsage) (joins : List JoinPair) :
    usage.addColumns (pairColumns joins) = usage.addAll joins := by
  funext k
  rw [addColumns_apply, ColumnUsage.addAll_apply, pairColumns, List.map_flatMap]
  rfl

theorem relationColumnsFrom_found (tableAlias table : Identifier) (pos : Nat)
    (cols : List System.TableColumn) :
    relationColumnsFrom usage tableAlias table pos cols ≠ .error indexFault := by
  induction cols generalizing pos with
  | nil => exact fun herror => by cases herror
  | cons col cols ih =>
      simp only [relationColumnsFrom]
      split
      · exact Outcome.bind_ne_error (ih (pos + 1)) fun rest _ herror => by cases herror
      split
      · split
        · exact fun herror => by cases herror
        · intro herror
          simp [indexFault] at herror
      · exact ih (pos + 1)

theorem visitRelation_found (tableAlias table : Identifier) :
    visitRelation catalog txId scans usage tableAlias table ≠ .error indexFault := by
  have hlookup : catalog.getTableInfo table txId ≠ .error indexFault := by
    unfold Catalog.getTableInfo Catalog.normalize
    dsimp only
    split
    · exact fun herror => by cases herror
    · exact fun herror => by cases Except.error.inj herror
  refine Outcome.bind_ne_error hlookup fun found _ => ?_
  cases found with
  | none => exact fun herror => by cases Except.error.inj herror
  | some info =>
      exact Outcome.bind_ne_error (relationColumnsFrom_found tableAlias table 0 info.columns)
        fun ps _ herror => by cases herror

theorem requireEqualities_found (columns : JoinColumns) (it : QueryIter) :
    requireEqualities columns it ≠ .error indexFault := by
  unfold requireEqualities
  split
  · intro herror
    simp [indexFault] at herror
  · exact fun herror => by cases herror

theorem beamSearch_found (children : List LogicalPlan) (joins : List JoinPair) :
    beamSearchJoinOrder joinOrder children joins ≠ .error indexFault := by
  unfold beamSearchJoinOrder
  split
  · exact fun herror => by cases herror
  · intro herror
    simp [indexFault] at herror

/-- The end of a join: the counters of its pairs. -/
theorem Follows.then_lower {s : Counting} {joins : List JoinPair} {x : Visit QueryIter}
    {r : Outcome QueryIter} (h : Follows x s r (usage.addAll joins)) :
    Follows (do
      let it ← x
      lowerUsage (pairColumns joins)
      pure it) s r usage := by
  rw [← bind_pure r]
  refine h.bind fun it _ s₁ hs₁ => ?_
  rw [← addColumns_pairs] at hs₁
  exact (follows_lower hs₁).step fun s₂ hs₂ => follows_pure it hs₂

theorem follows_outerJoin (make : QueryIter → QueryIter → JoinColumns → QueryIter)
    {s : Counting} {joins : List JoinPair} {lvisit rvisit : Visit QueryIter}
    {lhs rhs : Outcome QueryIter} (hl : FollowsAt (usage.addAll joins) lvisit lhs)
    (hr : FollowsAt (usage.addAll joins) rvisit rhs) (hs : s.usage = usage) :
    Follows (do
      raiseUsage (pairColumns joins)
      let lhs ← visitBelow lvisit
      let rhs ← visitBelow rvisit
      let it ← Procedure.ofExcept fun s =>
        requireEqualities (outerColumns s.usage joins lhs rhs)
          (make lhs rhs (outerColumns s.usage joins lhs rhs))
      lowerUsage (pairColumns joins)
      pure it) s (do
      let lhs ← lhs
      let rhs ← rhs
      requireEqualities (outerColumns (usage.addAll joins) joins lhs rhs)
        (make lhs rhs (outerColumns (usage.addAll joins) joins lhs rhs))) usage := by
  refine (follows_raise _).step fun s₁ hs₁ => ?_
  rw [addColumns_pairs, hs] at hs₁
  refine ((hl s₁ hs₁).below hs₁).bind fun lhs _ s₂ hs₂ => ?_
  refine ((hr s₂ hs₂).below hs₂).bind fun rhs _ s₃ hs₃ => Follows.then_lower ?_
  rw [← hs₃]
  exact follows_ofExcept (requireEqualities_found _ _) rfl

theorem product_chainOf {outcomes : List (Outcome QueryIter)} (empty : Fault)
    (h : ¬ outcomes.length < 2) :
    (outcomes.mapM id >>= visitCartesianProduct usage) =
      outcomes.mapM id >>= chainOf empty (productStep usage) := by
  cases hits : outcomes.mapM id with
  | error e => rfl
  | ok its =>
      have hlength := (Outcome.forall₂_of_mapM hits).length_eq
      match its, hlength with
      | [], hlength => exact absurd (hlength.trans_lt Nat.two_pos) h
      | [c], hlength => exact absurd (hlength.trans_lt Nat.one_lt_two) h
      | c :: d :: cs, _ => rfl

theorem join_chainOf {joins : List JoinPair} {order : List Nat}
    {outcomes : List (Outcome QueryIter)} :
    (order.mapM (childAt outcomes) >>= fun its =>
      match its with
      | [] => (.error (.undefinedBehaviour "join.children[0]") : Outcome QueryIter)
      | it :: its => .ok (its.foldl (joinStep usage joins) it)) =
      (order.map (childAt outcomes)).mapM id >>=
        chainOf (.undefinedBehaviour "join.children[0]") (joinStep usage joins) := by
  rw [List.mapM_map]
  refine congrArg _ (funext fun its => ?_)
  cases its with
  | nil => rfl
  | cons it its => rfl

/-- The children in an order. -/
theorem followsAt_order {plans : List LogicalPlan}
    (h : ∀ plan ∈ plans, FollowsAt usage
      (countingVisit catalog txId scans likeMatch joinOrder plan)
      (visitPlan catalog txId scans likeMatch joinOrder usage plan)) (order : List Nat) :
    List.Forall₂ (FollowsAt usage)
      (order.map (visitAt (countingVisits catalog txId scans likeMatch joinOrder plans)))
      (order.map (childAt (visitPlans catalog txId scans likeMatch joinOrder usage plans))) := by
  rw [List.forall₂_map_left_iff, List.forall₂_map_right_iff, List.forall₂_same]
  intro i _ s hs
  rw [visitAt, childAt, countingVisits_eq, visitPlans_eq, List.getElem?_map, List.getElem?_map]
  cases hi : plans[i]? with
  | none => exact follows_ofExcept (fun herror => by cases Except.error.inj herror) hs
  | some plan => exact h plan (List.mem_of_getElem? hi) s hs

/-- Below the root a visit does what the plain one does, and leaves the counters as they were. -/
theorem countingVisit_follows
    (horder : ∀ children joins, (joinOrder children joins).Perm (List.range children.length))
    {plan : LogicalPlan} (hplan : Scoped catalog txId plan) :
    FollowsAt usage (countingVisit catalog txId scans likeMatch joinOrder plan)
      (visitPlan catalog txId scans likeMatch joinOrder usage plan) := by
  intro s hs
  induction plan using LogicalPlan.induction generalizing usage s with
  | relation tableAlias table =>
      rw [countingVisit, visitPlan, ← hs]
      exact follows_ofExcept (visitRelation_found tableAlias table) rfl
  | selection child expressions ih =>
      rw [countingVisit, visitPlan, ← hs]
      refine (follows_raise _).step fun s₁ hs₁ => ?_
      refine ((ih hplan.1 s₁ hs₁).below hs₁).bind fun it hit s₂ hs₂ => ?_
      refine (follows_expressions (fun e he c hc => ?_) hs₂).bind fun lowered _ s₃ hs₃ =>
        follows_pure _ hs₃
      obtain ⟨d, hd, hkey⟩ := ExprPlan.key_mem_getColumns hc
      refine visitPlan_hasKey horder hplan.1 hit (hplan.2 e he c hc) (keeps_addColumns.mpr ?_)
      exact .inr ⟨d, List.mem_flatMap.mpr ⟨e, he, hd⟩, hkey⟩
  | cartesianProduct children ih =>
      rw [countingVisit, visitPlan]
      split
      · exact follows_ofExcept (fun herror => by simp [indexFault] at herror) hs
      rename_i htwo
      have hchildren : List.Forall₂ (FollowsAt usage)
          (countingVisits catalog txId scans likeMatch joinOrder children)
          (visitPlans catalog txId scans likeMatch joinOrder usage children) := by
        rw [countingVisits_eq, visitPlans_eq, List.forall₂_map_left_iff, List.forall₂_map_right_iff,
          List.forall₂_same]
        exact fun child hchild t ht => ih child hchild (eachColumnOf_iff.mp hplan child hchild) t ht
      have hlength : (visitPlans catalog txId scans likeMatch joinOrder usage children).length =
          children.length := by
        rw [visitPlans_eq, List.length_map]
      rw [← hlength] at htwo
      rw [product_chainOf _ htwo]
      exact follows_chain _ _ (fun herror => by cases herror) hchildren hs
  | join children joins ih =>
      rw [countingVisit, visitPlan, ← hs]
      refine (follows_raise _).step fun s₁ hs₁ => ?_
      rw [addColumns_pairs] at hs₁
      refine (follows_ofExcept (beamSearch_found children joins) hs₁).bind fun order _ s₂ hs₂ => ?_
      have hchildren : ∀ child ∈ children, FollowsAt (s.usage.addAll joins)
          (countingVisit catalog txId scans likeMatch joinOrder child)
          (visitPlan catalog txId scans likeMatch joinOrder (s.usage.addAll joins) child) :=
        fun child hchild t ht => ih child hchild (eachColumnOf_iff.mp hplan child hchild) t ht
      have hchain := follows_chain (.undefinedBehaviour "join.children[0]")
        (fun usage => joinStep usage joins) (fun herror => by cases herror)
        (followsAt_order hchildren order) hs₂
      rw [← join_chainOf] at hchain
      exact hchain.then_lower
  | leftOuterJoin tableAlias lchild rchild joins ihl ihr =>
      rw [countingVisit, visitPlan]
      exact follows_outerJoin
        (fun lhs rhs columns => .leftOuterJoin lhs rhs columns Record.empty false false)
        (ihl hplan.1) (ihr hplan.2) hs
  | fullOuterJoin tableAlias lchild rchild joins ihl ihr =>
      rw [countingVisit, visitPlan]
      exact follows_outerJoin
        (fun lhs rhs columns =>
          .fullOuterJoin lhs rhs columns Record.empty false false false 0 [])
        (ihl hplan.1) (ihr hplan.2) hs
  | projection child distinct limit columns ih => exact hplan.elim

/-- The visit of the root, which keeps what it adds. -/
theorem countingVisit_root
    (horder : ∀ children joins, (joinOrder children joins).Perm (List.range children.length))
    {child : LogicalPlan} {columns : List Column} (distinct : Bool) (limit : Nat)
    (hchild : Scoped catalog txId child) (hcolumns : ∀ c ∈ columns, Offers catalog txId child c.key)
    (s : Counting) :
    Follows (countingVisit catalog txId scans likeMatch joinOrder
        (.projection child distinct limit columns)) s
      (visitPlan catalog txId scans likeMatch joinOrder s.usage
        (.projection child distinct limit columns)) (s.usage.addColumns columns) := by
  rw [countingVisit, visitPlan]
  split
  · exact ⟨rfl, fun _ h => (by cases h), fun herror => (by cases Except.error.inj herror), id⟩
  refine (follows_raise columns).step fun s₁ hs₁ => ?_
  refine ((countingVisit_follows horder hchild s₁ hs₁).below hs₁).bind fun it hit s₂ hs₂ => ?_
  refine (follows_search (fun c hc => ?_) hs₂).step fun s₃ hs₃ => follows_pure _ hs₃
  exact visitPlan_hasKey horder hchild hit (hcolumns c hc) (keeps_addColumns.mpr
    (.inr ⟨c, hc, rfl⟩))

end Visits

end Iic3413Db.Query
