/-
  Query/Executor/QueryIter.lean --- `query/executor/*.h`: the iterators of a
  physical plan, with their state.

  An iterator is a value here, and `begin`, `next` and `reset` return the iterator
  after the call.  Their loops have fuel; `.ok none` is a loop that ran out of it.
  An expression is the function `Expr::eval` computes, and a scan of a table is the
  list of its rows, one list for each time the scan is reset.
-/
import Iic3413Db.System.Catalog

set_option autoImplicit false

namespace Iic3413Db.Query

open Iic3413Db.RelationalModel
open Iic3413Db.System (TableColumn)

/-! ## Columns -/

/-- `class Column`. -/
structure Column where
  tableAlias : List UInt8
  table : List UInt8
  info : TableColumn
  deriving DecidableEq, Repr

/-- What `Column::operator==` and `operator<` compare. -/
abbrev ColumnKey : Type := List UInt8 × List UInt8

def Column.key (c : Column) : ColumnKey := (c.tableAlias, c.info.name)

/-- `struct ProjectedColumn`. -/
structure ProjectedColumn where
  pos : Nat
  col : Column
  deriving DecidableEq, Repr

/-- The position of the first column that `operator==` finds equal. -/
def findColumn (columns : List Column) (col : Column) : Option Nat :=
  columns.findIdx? fun c => c.key = col.key

/-! ## The iterators -/

/-- `class RelationIter`: the rows of each scan, and those the present one has not
delivered. -/
structure RelationIter where
  scans : Nat → List Record
  scan : Nat
  rest : List Record

namespace RelationIter

/-- `next`. -/
def next (it : RelationIter) : Record × RelationIter :=
  match it.rest with
  | [] => (Record.empty, it)
  | r :: rest => (r, { it with rest := rest })

/-- `reset`. -/
def reset (it : RelationIter) : RelationIter :=
  { it with scan := it.scan + 1, rest := it.scans (it.scan + 1) }

end RelationIter

/-- `Expr::eval`. -/
abbrev Expr : Type := Record → Outcome Value

/-- What the iterators with two children project and compare. -/
structure JoinColumns where
  lhs : List ProjectedColumn
  rhs : List ProjectedColumn
  equalities : List (Nat × Nat)

/-- `class QueryIter` and its subclasses. -/
inductive QueryIter where
  | relation (child : RelationIter) (projected : List ProjectedColumn)
  | selection (child : QueryIter) (expressions : List Expr)
  | cartesianProduct (lhs rhs : QueryIter) (projectedLhs projectedRhs : List ProjectedColumn)
      (currentLhs : Record) (validLhs : Bool)
  | join (lhs rhs : QueryIter) (columns : JoinColumns) (currentLhs : Record) (validLhs : Bool)
  | leftOuterJoin (lhs rhs : QueryIter) (columns : JoinColumns) (currentLhs : Record)
      (validLhs outerMatch : Bool)
  | fullOuterJoin (lhs rhs : QueryIter) (columns : JoinColumns) (currentLhs : Record)
      (validLhs validRhs outerMatch : Bool) (rhsIndex : Nat) (matchedRhs : List Bool)
  | projection (child : QueryIter) (columns : List Column) (limit resultCount : Nat)

namespace QueryIter

/-- `get_columns`. -/
def getColumns : QueryIter → List Column
  | .relation _ projected => projected.map ProjectedColumn.col
  | .selection child _ => child.getColumns
  | .cartesianProduct _ _ projectedLhs projectedRhs _ _ =>
      projectedLhs.map ProjectedColumn.col ++ projectedRhs.map ProjectedColumn.col
  | .join _ _ columns _ _ | .leftOuterJoin _ _ columns _ _ _
  | .fullOuterJoin _ _ columns _ _ _ _ _ _ =>
      columns.lhs.map ProjectedColumn.col ++ columns.rhs.map ProjectedColumn.col
  | .projection _ columns _ _ => columns

/-! ## Records -/

/-- `values[i]`. -/
def valueAt (values : List Value) (i : Nat) : Outcome Value :=
  match values[i]? with
  | some v => .ok v
  | none => .error (.undefinedBehaviour "values[i]")

/-- The values of the projected columns. -/
def project (projected : List ProjectedColumn) (values : List Value) : Outcome (List Value) :=
  projected.mapM fun c => valueAt values c.pos

/-- `combined_values`. -/
def combine (projectedLhs projectedRhs : List ProjectedColumn) (lhs rhs : List Value) :
    Outcome Record := do
  let left ← project projectedLhs lhs
  let right ← project projectedRhs rhs
  .ok ⟨left ++ right⟩

/-- The loop over `equalities`. -/
def compatible (lhs rhs : Record) : List (Nat × Nat) → Outcome Bool
  | [] => .ok true
  | eq :: eqs => do
      let left ← valueAt lhs.values eq.1
      let right ← valueAt rhs.values eq.2
      if left ≠ right then .ok false else compatible lhs rhs eqs

/-- `init_rhs_null` and `init_nulls`. -/
def nullValues (projected : List ProjectedColumn) : List Value :=
  projected.filterMap fun c =>
    match c.col.info.datatype with
    | .rid | .invalid => none
    | .int => some (.int (-1))
    | .str => some (.string [45, 49])

/-- The loop over `expressions` of a selection. -/
def matchesAll (r : Record) : List Expr → Outcome Bool
  | [] => .ok true
  | e :: es => do
      match ← e r with
      | .int i => if i = 0 then .ok false else matchesAll r es
      | .string _ | .rid _ => .error (.assertFailed "is_int()")

/-- The values `Projection::next` picks by name. -/
def pick (columns : List Column) (values : List Value) : List Column → Outcome (List Value)
  | [] => .ok []
  | col :: cols =>
      match findColumn columns col with
      | none => pick columns values cols
      | some j => do
          let v ← valueAt values j
          let vs ← pick columns values cols
          .ok (v :: vs)

/-! ## The three calls -/

/-- `reset`.  The products and the joins leave `valid_lhs` as it is. -/
def reset : QueryIter → QueryIter
  | .relation child projected => .relation child.reset projected
  | .selection child expressions => .selection child.reset expressions
  | .cartesianProduct lhs rhs projectedLhs projectedRhs currentLhs validLhs =>
      .cartesianProduct lhs.reset rhs.reset projectedLhs projectedRhs currentLhs validLhs
  | .join lhs rhs columns currentLhs validLhs =>
      .join lhs.reset rhs.reset columns currentLhs validLhs
  | .leftOuterJoin lhs rhs columns currentLhs _ outerMatch =>
      .leftOuterJoin lhs.reset rhs.reset columns currentLhs false outerMatch
  | .fullOuterJoin lhs rhs columns currentLhs _ _ outerMatch _ matchedRhs =>
      .fullOuterJoin lhs.reset rhs.reset columns currentLhs false false outerMatch 0
        (matchedRhs.map fun _ => false)
  | .projection child columns limit _ => .projection child.reset columns limit 0

mutual

/-- `next`. -/
def next : Nat → QueryIter → Outcome (Option (Record × QueryIter))
  | 0, _ => .ok none
  | _ + 1, .relation child projected =>
      .ok (some (child.next.1, .relation child.next.2 projected))
  | fuel + 1, .selection child expressions => do
      match ← next fuel child with
      | none => .ok none
      | some (r, child) =>
          if r.invalid then .ok (some (Record.empty, .selection child expressions))
          else if ← matchesAll r expressions then .ok (some (r, .selection child expressions))
          else next fuel (.selection child expressions)
  | fuel + 1, .cartesianProduct lhs rhs projectedLhs projectedRhs currentLhs true => do
      match ← next fuel rhs with
      | none => .ok none
      | some (r, rhs) =>
          if r.invalid then
            next fuel (.cartesianProduct lhs rhs projectedLhs projectedRhs currentLhs false)
          else do
            let combined ← combine projectedLhs projectedRhs currentLhs.values r.values
            .ok (some (combined,
              .cartesianProduct lhs rhs projectedLhs projectedRhs currentLhs true))
  | fuel + 1, .cartesianProduct lhs rhs projectedLhs projectedRhs _ false => do
      match ← next fuel lhs with
      | none => .ok none
      | some (r, lhs) =>
          if r.invalid then
            .ok (some (Record.empty,
              .cartesianProduct lhs rhs projectedLhs projectedRhs r false))
          else next fuel (.cartesianProduct lhs rhs.reset projectedLhs projectedRhs r true)
  -- the inner loop over the rows of the right child goes through the outer one here
  | fuel + 1, .join lhs rhs columns currentLhs true => do
      match ← next fuel rhs with
      | none => .ok none
      | some (r, rhs) =>
          if r.invalid then next fuel (.join lhs rhs columns currentLhs false)
          else if ← compatible currentLhs r columns.equalities then do
            let combined ← combine columns.lhs columns.rhs currentLhs.values r.values
            .ok (some (combined, .join lhs rhs columns currentLhs true))
          else next fuel (.join lhs rhs columns currentLhs true)
  | fuel + 1, .join lhs rhs columns _ false => do
      match ← next fuel lhs with
      | none => .ok none
      | some (r, lhs) =>
          if r.invalid then .ok (some (Record.empty, .join lhs rhs columns r false))
          else next fuel (.join lhs rhs.reset columns r true)
  | fuel + 1, .leftOuterJoin lhs rhs columns currentLhs true outerMatch => do
      match ← next fuel rhs with
      | none => .ok none
      | some (r, rhs) =>
          if r.invalid then
            let it := QueryIter.leftOuterJoin lhs rhs columns currentLhs false outerMatch
            if outerMatch then next fuel it
            else do
              let combined ← combine columns.lhs columns.rhs currentLhs.values
                (nullValues columns.rhs)
              .ok (some (combined, it))
          else if ← compatible currentLhs r columns.equalities then do
            let combined ← combine columns.lhs columns.rhs currentLhs.values r.values
            .ok (some (combined, .leftOuterJoin lhs rhs columns currentLhs true true))
          else next fuel (.leftOuterJoin lhs rhs columns currentLhs true outerMatch)
  | fuel + 1, .leftOuterJoin lhs rhs columns _ false outerMatch => do
      match ← next fuel lhs with
      | none => .ok none
      | some (r, lhs) =>
          if r.invalid then
            .ok (some (Record.empty, .leftOuterJoin lhs rhs columns r false outerMatch))
          else next fuel (.leftOuterJoin lhs rhs.reset columns r true false)
  | fuel + 1, .fullOuterJoin lhs rhs columns currentLhs true validRhs outerMatch i matched => do
      match ← next fuel rhs with
      | none => .ok none
      | some (r, rhs) =>
          if r.invalid then
            let it := QueryIter.fullOuterJoin lhs rhs columns currentLhs false validRhs outerMatch i
              matched
            if outerMatch then next fuel it
            else do
              let combined ← combine columns.lhs columns.rhs currentLhs.values
                (nullValues columns.rhs)
              .ok (some (combined, it))
          else if ← compatible currentLhs r columns.equalities then
            if matched.length ≤ i then .error (.undefinedBehaviour "matched_rhs[rhs_index++]")
            else do
              let combined ← combine columns.lhs columns.rhs currentLhs.values r.values
              .ok (some (combined, .fullOuterJoin lhs rhs columns currentLhs true validRhs true
                (i + 1) (matched.set i true)))
          else
            let it := QueryIter.fullOuterJoin lhs rhs columns currentLhs true validRhs outerMatch
              (i + 1) matched
            next fuel it
  | fuel + 1, .fullOuterJoin lhs rhs columns _ false validRhs outerMatch i matched => do
      match ← next fuel lhs with
      | none => .ok none
      | some (r, lhs) =>
          if ¬ r.invalid then
            next fuel (.fullOuterJoin lhs rhs.reset columns r true validRhs false 0 matched)
          else
            let (rhs, i) := if validRhs then (rhs, i) else (rhs.reset, 0)
            match ← nextUnmatched fuel rhs i matched with
            | none => .ok none
            | some (s, rhs, i) =>
                let it := QueryIter.fullOuterJoin lhs rhs columns r false true outerMatch i matched
                if s.invalid then .ok (some (Record.empty, it))
                else do
                  let combined ← combine columns.lhs columns.rhs (nullValues columns.lhs) s.values
                  .ok (some (combined, it))
  | fuel + 1, .projection child columns limit resultCount => do
      match ← next fuel child with
      | none => .ok none
      | some (r, child) =>
          if r.invalid ∨ limit ≤ resultCount then
            .ok (some (Record.empty, .projection child columns limit resultCount))
          else do
            let values ← pick child.getColumns r.values columns
            .ok (some (⟨values⟩, .projection child columns limit (resultCount + 1)))

/-- The last loop of a full outer join: the next row of the right child that was
not matched. -/
def nextUnmatched : Nat → QueryIter → Nat → List Bool →
    Outcome (Option (Record × QueryIter × Nat))
  | 0, _, _, _ => .ok none
  | fuel + 1, rhs, i, matched => do
      match ← next fuel rhs with
      | none => .ok none
      | some (r, rhs) =>
          if r.invalid then .ok (some (r, rhs, i))
          else
            match matched[i]? with
            | none => .error (.undefinedBehaviour "matched_rhs[rhs_index++]")
            | some true => nextUnmatched fuel rhs (i + 1) matched
            | some false => .ok (some (r, rhs, i + 1))

end

/-- The loop of `init_matched_rhs`: the rows of the right child. -/
def countRows : Nat → QueryIter → Outcome (Option (Nat × QueryIter))
  | 0, _ => .ok none
  | fuel + 1, it => do
      match ← next fuel it with
      | none => .ok none
      | some (r, it) =>
          if r.invalid then .ok (some (0, it))
          else do
            match ← countRows fuel it with
            | none => .ok none
            | some (n, it) => .ok (some (n + 1, it))

/-- `begin`, with fuel for the scan of `init_matched_rhs`. -/
def begin (fuel : Nat) : QueryIter → Outcome (Option QueryIter)
  | .relation child projected => .ok (some (.relation child projected))
  | .selection child expressions => do
      match ← begin fuel child with
      | none => .ok none
      | some child => .ok (some (.selection child expressions))
  | .cartesianProduct lhs rhs projectedLhs projectedRhs currentLhs _ => do
      match ← begin fuel lhs, ← begin fuel rhs with
      | some lhs, some rhs =>
          .ok (some (.cartesianProduct lhs rhs projectedLhs projectedRhs currentLhs false))
      | _, _ => .ok none
  | .join lhs rhs columns currentLhs _ => do
      match ← begin fuel lhs, ← begin fuel rhs with
      | some lhs, some rhs => .ok (some (.join lhs rhs columns currentLhs false))
      | _, _ => .ok none
  | .leftOuterJoin lhs rhs columns currentLhs _ outerMatch => do
      match ← begin fuel lhs, ← begin fuel rhs with
      | some lhs, some rhs =>
          .ok (some (.leftOuterJoin lhs rhs columns currentLhs false outerMatch))
      | _, _ => .ok none
  | .fullOuterJoin lhs rhs columns currentLhs _ _ outerMatch _ _ => do
      match ← begin fuel lhs, ← begin fuel rhs with
      | some lhs, some rhs => do
          match ← countRows fuel rhs with
          | none => .ok none
          | some (n, rhs) => .ok (some (.fullOuterJoin lhs rhs.reset columns currentLhs false false
              outerMatch 0 (List.replicate n false)))
      | _, _ => .ok none
  | .projection child columns limit _ => do
      match ← begin fuel child with
      | none => .ok none
      | some child => .ok (some (.projection child columns limit 0))

/-- Call `next` until it returns an invalid record. -/
def collect : Nat → QueryIter → Outcome (Option (List Record))
  | 0, _ => .ok none
  | fuel + 1, it => do
      match ← next fuel it with
      | none => .ok none
      | some (r, it) =>
          if r.invalid then .ok (some [])
          else do
            let records ← collect fuel it
            .ok (records.map (r :: ·))

end QueryIter

end Iic3413Db.Query
