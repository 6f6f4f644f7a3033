/-
  Foundation/Limits.lean --- the results a query with a limit may have.

  Nothing here mentions the database.  A limit without an order leaves open which rows are
  returned, so any choice of as many rows as it allows is a result.
-/
import Mathlib.Data.List.Dedup
import Mathlib.Data.List.Perm.Subperm

set_option autoImplicit false

namespace Iic3413Db.Foundation

variable {α : Type}

/-- Some of the rows, as many as the limit allows. -/
def Picks (limit : Nat) (rows result : List α) : Prop :=
  result.Subperm rows ∧ result.length = min limit rows.length

variable {limit : Nat} {rows rows' extra result : List α}

theorem picks_perm (h : rows.Perm rows') : Picks limit rows result ↔ Picks limit rows' result := by
  rw [Picks, Picks, h.length_eq, h.subperm_left]

variable [DecidableEq α]

/-- Equal rows that the limit allows are in some choice together. -/
theorem exists_picks_count (limit : Nat) (rows : List α) (v : α) :
    ∃ result, Picks limit rows result ∧ min limit (rows.count v) ≤ result.count v := by
  have hperm : (rows.filter (fun x => decide (x = v)) ++
      rows.filter fun x => !decide (x = v)).Perm rows := List.filter_append_perm _ rows
  have hsame : rows.filter (fun x => decide (x = v)) = List.replicate (rows.count v) v := by
    rw [← List.filter_beq]
    rfl
  rw [hsame] at hperm
  refine ⟨List.take limit (List.replicate (rows.count v) v ++ rows.filter fun x => !decide (x = v)),
    ⟨(List.take_sublist _ _).subperm.trans hperm.subperm, ?_⟩, ?_⟩
  · rw [List.length_take, hperm.length_eq]
  · rw [List.take_append, List.take_replicate, List.count_append, List.count_replicate_self]
    exact Nat.le_add_right _ _

/-- More rows leave the choices as they are when the limit hides every copy that they add. -/
theorem picks_iff_of_subperm (h : rows.Subperm rows') :
    (∀ result, Picks limit rows' result ↔ Picks limit rows result) ↔
      ∀ v, min limit (rows'.count v) ≤ rows.count v := by
  constructor
  · intro hsame v
    obtain ⟨result, hpicks, hcount⟩ := exists_picks_count limit rows' v
    exact Nat.le_trans hcount (((hsame result).mp hpicks).1.count_le v)
  · intro hcount result
    have hlength : min limit rows'.length = min limit rows.length := by
      by_cases hlimit : limit ≤ rows.length
      · have hle := h.length_le
        omega
      · -- the limit hides nothing, so nothing was added
        have hperm : rows'.Perm rows := by
          refine (h.perm_of_length_le (List.Subperm.length_le ?_)).symm
          refine List.subperm_ext_iff.mpr fun v _ => ?_
          have hv := hcount v
          have hle : rows.count v ≤ rows.length := List.count_le_length
          omega
        rw [hperm.length_eq]
    rw [Picks, Picks, hlength]
    refine and_congr_left fun hresult => ⟨fun hsub => ?_, fun hsub => hsub.trans h⟩
    refine List.subperm_ext_iff.mpr fun v _ => ?_
    have hv := hcount v
    have hsubv := hsub.count_le v
    have hle : result.count v ≤ result.length := List.count_le_length
    omega

/-! ## Queries -/

/-- The results of a query, with one row of each kind when it asks for distinct rows. -/
def ResultOf (distinct : Bool) (limit : Nat) (rows result : List α) : Prop :=
  Picks limit (if distinct then rows.dedup else rows) result

/-- There are enough rows equal to one to fill every result with it. -/
def Fills (distinct : Bool) (limit : Nat) (rows : List α) (v : α) : Prop :=
  if distinct then v ∈ rows else limit ≤ rows.count v

instance (distinct : Bool) (limit : Nat) (rows : List α) (v : α) :
    Decidable (Fills distinct limit rows v) :=
  inferInstanceAs (Decidable (if distinct = true then _ else _))

theorem resultOf_perm {distinct : Bool} (h : rows.Perm rows') :
    ResultOf distinct limit rows result ↔ ResultOf distinct limit rows' result := by
  refine picks_perm ?_
  cases distinct with
  | false => exact h
  | true => exact h.dedup

/-- Rows that are added change no result when each is equal to enough of the others. -/
theorem resultOf_append_iff {distinct : Bool} (hlimit : 1 ≤ limit) :
    (∀ result, ResultOf distinct limit (rows ++ extra) result ↔
        ResultOf distinct limit rows result) ↔ ∀ v ∈ extra, Fills distinct limit rows v := by
  cases distinct with
  | false =>
      have hsub : rows.Subperm (rows ++ extra) := (List.sublist_append_left rows extra).subperm
      refine (picks_iff_of_subperm hsub).trans ⟨fun h v hv => ?_, fun h v => ?_⟩
      · have hcount := h v
        have hpos : 0 < extra.count v := List.count_pos_iff.mpr hv
        rw [List.count_append] at hcount
        show limit ≤ rows.count v
        omega
      · by_cases hv : v ∈ extra
        · exact Nat.le_trans (Nat.min_le_left _ _) (h v hv)
        · rw [List.count_append, List.count_eq_zero_of_not_mem hv]
          exact Nat.min_le_right _ _
  | true =>
      have hsub : rows.dedup.Subperm (rows ++ extra).dedup := by
        refine List.subperm_of_subset rows.nodup_dedup fun v hv => ?_
        rw [List.mem_dedup] at hv ⊢
        exact List.mem_append_left extra hv
      refine (picks_iff_of_subperm hsub).trans ⟨fun h v hv => ?_, fun h v => ?_⟩
      · have hcount := h v
        rw [List.count_dedup, List.count_dedup, if_pos (List.mem_append_right rows hv)] at hcount
        show v ∈ rows
        by_contra hnot
        rw [if_neg hnot] at hcount
        omega
      · rw [List.count_dedup, List.count_dedup]
        by_cases hv : v ∈ rows
        · rw [if_pos hv]
          split
          · exact Nat.min_le_right _ _
          · exact Nat.le_trans (Nat.min_le_right _ _) (Nat.zero_le 1)
        · have hnot : v ∉ rows ++ extra := fun hmem =>
            (List.mem_append.mp hmem).elim hv fun hextra => hv (h v hextra)
          rw [if_neg hv, if_neg hnot]
          exact Nat.min_le_right _ _

end Iic3413Db.Foundation
