/-
  Query/Executor/UpdateIter.lean --- the data of `query/executor/update_iter.h`:
  a WHERE clause and a SET list, and what they do to one record.

  The child's columns are all the columns of the table, in order, since the
  optimizer counts every column of an updated table as used.  The clause and the
  new values are functions of the record; a new value has passed the constructors
  of `Value`, so it comes with the proof that it fits.
-/
import Iic3413Db.RelationalModel.TableSchema

set_option autoImplicit false

namespace Iic3413Db.Query

open Iic3413Db.RelationalModel

/-- One entry of `assignments`. -/
structure Assignment where
  colIndex : Nat
  eval : Record → Outcome Value
  fits : ∀ record v, eval record = .ok v → v.Fits

/-- An UPDATE statement: `child->matches` and the SET list. -/
structure UpdateStatement where
  childMatches : Record → Outcome Bool
  assignments : List Assignment

/-- The loop over the assignments. -/
def assign (columns : List ColumnInfo) : List Assignment → Record → Outcome Record
  | [], record => .ok record
  | a :: rest, record => do
      let newValue ← a.eval record
      match columns[a.colIndex]? with
      | none => .error (.undefinedBehaviour "columns[col_index]")
      | some col =>
          if newValue.isInt = true ∧ col.datatype = .int ∨
              newValue.isString = true ∧ col.datatype = .str then
            assign columns rest ⟨record.values.set a.colIndex newValue⟩
          else .error (.queryException
            s!"Type mismatch in update assignment for column {col.name}")

/-- The record `UpdateIter::next` hands to `Catalog::update_record`, from the
values of the version it read. -/
def UpdateStatement.updatedRecord (t : TableSchema) (stmt : UpdateStatement) (values : List Value)
    (first : RID) : Outcome Record :=
  assign t.schema.columns stmt.assignments ((⟨values⟩ : Record).pushRid first)

/-- A SET list turns values of the table's types into such values, and leaves the
RID behind them. -/
theorem assign_ok {t : TableSchema} {first : RID} : ∀ {as : List Assignment} {vs : List Value}
    {out : Record}, Matches t.schema.columns vs →
    assign t.schema.columns as ((⟨vs⟩ : Record).pushRid first) = .ok out →
    ∃ ws, out = (⟨ws⟩ : Record).pushRid first ∧ Matches t.schema.columns ws := by
  intro as
  induction as with
  | nil =>
      intro vs out hvs h
      cases h
      exact ⟨vs, rfl, hvs⟩
  | cons a as ih =>
      intro vs out hvs h
      simp only [assign] at h
      cases heval : a.eval ((⟨vs⟩ : Record).pushRid first) with
      | error e => simp [heval] at h
      | ok v =>
          simp only [heval, Outcome.ok_bind] at h
          cases hcol : t.schema.columns[a.colIndex]? with
          | none => simp [hcol] at h
          | some col =>
              simp only [hcol] at h
              split at h
              · rename_i htype
                -- a column of this type is a declared one, so the RID stays
                have hdecl : a.colIndex < t.columns.length := by
                  by_contra hge
                  rw [TableSchema.schema, List.getElem?_append_right (by omega)] at hcol
                  obtain ⟨hlt, hget⟩ := List.getElem?_eq_some_iff.mp hcol
                  have hzero : a.colIndex - t.columns.length = 0 := by
                    simpa using hlt
                  simp only [hzero, List.getElem_cons_zero] at hget
                  rw [← hget] at htype
                  simp at htype
                have hlen := TableSchema.length_of_matches hvs
                have hset : ((⟨vs⟩ : Record).pushRid first).values.set a.colIndex v =
                    ((⟨vs.set a.colIndex v⟩ : Record).pushRid first).values := by
                  simp only [Record.pushRid]
                  exact List.set_append_left a.colIndex v (by omega)
                rw [hset] at h
                refine ih (TableSchema.matches_iff.mpr
                  (forall₂_set (TableSchema.matches_iff.mp hvs) fun c hc => ?_)) h
                have hsame : c = col := by
                  rw [TableSchema.schema, List.getElem?_append_left hdecl, hc] at hcol
                  exact Option.some.inj hcol
                rw [hsame]
                exact ⟨a.fits _ v heval, htype⟩
              · cases h

/-- The record an UPDATE writes has the values of the table, and the RID. -/
theorem UpdateStatement.updatedRecord_ok {t : TableSchema} {stmt : UpdateStatement}
    {values : List Value} {first : RID} {out : Record} (hvs : Matches t.schema.columns values)
    (h : stmt.updatedRecord t values first = .ok out) :
    ∃ ws, out = (⟨ws⟩ : Record).pushRid first ∧ Matches t.schema.columns ws :=
  assign_ok hvs h

end Iic3413Db.Query
