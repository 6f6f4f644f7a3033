/-
  RelationalModel/TableSchema.lean --- the schemas tables have.

  `QueryPreprocessor::visitCreateQuery` admits STR and INT columns only, and
  `Catalog::create_table` appends the implicit RID column.  A record of a table
  then has a value for each declared column, in order, and nothing else is
  stored.
-/
import Iic3413Db.RelationalModel.Record

set_option autoImplicit false

namespace Iic3413Db.RelationalModel

/-- The schema of a table, by its declared columns. -/
structure TableSchema where
  columns : List ColumnInfo
  nonempty : columns ≠ []
  datatypes : ∀ col ∈ columns, col.datatype = .str ∨ col.datatype = .int

/-- What `Catalog::create_table` stores. -/
def TableSchema.schema (t : TableSchema) : Schema := ⟨t.columns ++ [⟨"RID", .rid⟩]⟩

/-- A value a column takes. -/
def ColumnInfo.Holds (col : ColumnInfo) (v : Value) : Prop :=
  v.Fits ∧ (v.isInt = true ∧ col.datatype = .int ∨ v.isString = true ∧ col.datatype = .str)

/-- The stored values of a record, column by column. -/
theorem matches_append_rid {name : String} {cols : List ColumnInfo}
    (hcols : ∀ col ∈ cols, col.datatype = .str ∨ col.datatype = .int) {vs : List Value} :
    Matches (cols ++ [⟨name, .rid⟩]) vs ↔ List.Forall₂ ColumnInfo.Holds cols vs := by
  induction cols generalizing vs with
  | nil =>
      constructor
      · intro h
        cases h with
        | int hcol => cases hcol
        | str hcol => cases hcol
        | skip _ hrest =>
            cases hrest
            exact .nil
      · intro h
        cases h
        exact .skip (.inl rfl) .nil
  | cons col cols ih =>
      have ih := fun vs => @ih (fun c hc => hcols c (List.mem_cons_of_mem _ hc)) vs
      constructor
      · intro h
        cases h with
        | int hcol hfits hrest => exact .cons ⟨hfits, .inl ⟨rfl, hcol⟩⟩ ((ih _).mp hrest)
        | str hcol hfits hrest => exact .cons ⟨hfits, .inr ⟨rfl, hcol⟩⟩ ((ih _).mp hrest)
        | skip hskip _ =>
            rcases hcols col List.mem_cons_self with h | h <;> simp [h] at hskip
      · intro h
        cases h with
        | @cons _ v _ vs hv hrest =>
            obtain ⟨hfits, ⟨hv, hcol⟩ | ⟨hv, hcol⟩⟩ := hv
            · cases v with
              | int i => exact .int hcol hfits ((ih _).mpr hrest)
              | string s => cases hv
              | rid r => cases hv
            · cases v with
              | string s => exact .str hcol hfits ((ih _).mpr hrest)
              | int i => cases hv
              | rid r => cases hv

theorem forall₂_set {α β : Type} {R : α → β → Prop} {as : List α} {bs : List β}
    (h : List.Forall₂ R as bs) {i : Nat} {b : β} (hb : ∀ a, as[i]? = some a → R a b) :
    List.Forall₂ R as (bs.set i b) := by
  induction h generalizing i with
  | nil => exact .nil
  | cons hhead htail ih =>
      cases i with
      | zero => exact .cons (hb _ rfl) htail
      | succ i => exact .cons hhead (ih hb)

namespace TableSchema

variable {t : TableSchema} {vs : List Value}

theorem matches_iff :
    Matches t.schema.columns vs ↔ List.Forall₂ ColumnInfo.Holds t.columns vs :=
  matches_append_rid t.datatypes

/-- The values of a table's record are storable and no RIDs. -/
theorem values_of_matches (h : Matches t.schema.columns vs) :
    ∀ v ∈ vs, v.Fits ∧ v.isRid = false := by
  intro v hv
  obtain ⟨i, hi, rfl⟩ := List.mem_iff_getElem.mp hv
  have hall := matches_iff.mp h
  have hi' : i < t.columns.length := by rwa [hall.length_eq]
  obtain ⟨hfits, hkind⟩ := hall.get hi' hi
  refine ⟨hfits, ?_⟩
  simp only [List.get_eq_getElem] at hkind
  cases hval : vs[i] with
  | rid r => simp [hval, Value.isInt, Value.isString] at hkind
  | int i => rfl
  | string s => rfl

theorem length_of_matches (h : Matches t.schema.columns vs) : vs.length = t.columns.length :=
  (matches_iff.mp h).length_eq.symm

theorem ne_nil_of_matches (h : Matches t.schema.columns vs) : vs ≠ [] := by
  rintro rfl
  exact t.nonempty (List.length_eq_zero_iff.mp (length_of_matches h).symm)

/-- All of the record is stored. -/
theorem stored_of_matches (h : Matches t.schema.columns vs) :
    (⟨vs⟩ : Record).stored = vs := by
  refine List.filter_eq_self.mpr fun v hv => ?_
  simp [(values_of_matches h v hv).2]

/-- All of the record but the RID behind it is stored. -/
theorem stored_pushRid (h : Matches t.schema.columns vs) (rid : RID) :
    ((⟨vs⟩ : Record).pushRid rid).stored = vs := by
  have hstored := stored_of_matches h
  unfold Record.stored at hstored ⊢
  rw [Record.pushRid, List.filter_append, hstored]
  simp [Value.isRid]

end TableSchema

end Iic3413Db.RelationalModel
