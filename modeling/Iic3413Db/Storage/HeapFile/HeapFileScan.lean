/-
  Storage/HeapFile/HeapFileScan.lean --- what a full scan of a heap file returns.

  An iterator stands before a position of the file, and `rest` is the list of the
  RIDs it has not visited.  Given what each slot comes to, `next` returns the row
  of the first slot of `rest` that has one, and the scan returns the rows of all
  slots in file order.
-/
import Iic3413Db.Storage.HeapFile.HeapFileSlots

set_option autoImplicit false

namespace Iic3413Db.Storage

open Iic3413Db.RelationalModel Iic3413Db.System HeapFilePage

namespace HeapFile

/-- The RIDs of the directory of page `n`. -/
def ridsOf (hf : HeapFile) (n : Nat) : List RID :=
  (List.range (hf.contentsOf n).length).map fun (i : Nat) => ⟨n, i⟩

/-- The RIDs of the file. -/
def rids (hf : HeapFile) : List RID := (List.range hf.pageCount).flatMap hf.ridsOf

variable {hf : HeapFile}

theorem mem_ridsOf {n : Nat} {rid : RID} :
    rid ∈ hf.ridsOf n ↔ ∃ i : Nat, i < (hf.contentsOf n).length ∧ rid = ⟨n, i⟩ := by
  simp only [ridsOf, List.mem_map, List.mem_range, eq_comm]

theorem nodup_ridsOf (n : Nat) : (hf.ridsOf n).Nodup := by
  refine List.nodup_range.map ?_
  intro i j h
  simpa using h

theorem nodup_rids : hf.rids.Nodup := by
  refine List.nodup_flatMap.mpr ⟨fun n _ => nodup_ridsOf n, ?_⟩
  refine List.nodup_range.imp ?_
  intro n m hne rid hn hm
  obtain ⟨i, _, rfl⟩ := mem_ridsOf.mp hn
  obtain ⟨j, _, heq⟩ := mem_ridsOf.mp hm
  simp only [RID.mk.injEq, Nat.cast_inj] at heq
  exact hne heq.1

/-- The file lists every RID with something stored. -/
theorem Valid.mem_rids (hv : hf.Valid) {rid : RID} {e : RecordHeader × List Value}
    (h : hf.slot rid = some e) : rid ∈ hf.rids := by
  obtain ⟨n, i, rfl, hi⟩ := exists_nat_of_slot h
  obtain ⟨hlt, _⟩ := List.getElem?_eq_some_iff.mp hi
  exact List.mem_flatMap.mpr
    ⟨n, List.mem_range.mpr (hv.lt_pageCount hi), mem_ridsOf.mpr ⟨i, hlt, rfl⟩⟩

end HeapFile

namespace HeapFileIter

/-- The iteration a slot comes to when its row, if it has one, is known. -/
def Turn.ofRow : Option Record → Turn
  | none => .again
  | some record => .row record

section Scan

variable {hf : HeapFile} {tm : TransactionManager} {txId : TxID} {readFuel : Nat}
  {row : RID → Option Record}

/-- The RIDs an iterator on page `n`, at position `k`, with `m` pages after that
one, has not visited. -/
def rest (hf : HeapFile) (n m k : Nat) : List RID :=
  (hf.ridsOf n).drop k ++ (List.range' (n + 1) m).flatMap hf.ridsOf

/-- The iterations left. -/
def weight (hf : HeapFile) (n m k : Nat) : Nat :=
  ((hf.contentsOf n).length - k) +
    ((List.range' (n + 1) m).map fun n => (hf.contentsOf n).length + 1).sum + 1

/-- The iterator before position `k` of page `n`. -/
abbrev before (n m k : Nat) : HeapFileIter := ⟨n + 1 + m, n, (k : Int) - 1, false⟩

theorem rest_cons {n m k : Nat} (hk : k < (hf.contentsOf n).length) :
    rest hf n m k = ⟨n, k⟩ :: rest hf n m (k + 1) := by
  have hlen : k < (hf.ridsOf n).length := by simpa [HeapFile.ridsOf] using hk
  have hget : (hf.ridsOf n)[k] = ⟨n, k⟩ := by simp [HeapFile.ridsOf]
  rw [rest, rest, List.drop_eq_getElem_cons hlen, hget, List.cons_append]

theorem rest_page {n m k : Nat} (hk : (hf.contentsOf n).length ≤ k) :
    rest hf n (m + 1) k = rest hf (n + 1) m 0 := by
  have hdrop : (hf.ridsOf n).drop k = [] :=
    List.drop_eq_nil_iff.mpr (by simpa [HeapFile.ridsOf] using hk)
  rw [rest, rest, hdrop, List.nil_append, List.range'_succ, List.flatMap_cons, List.drop_zero]

theorem rest_end {n k : Nat} (hk : (hf.contentsOf n).length ≤ k) : rest hf n 0 k = [] := by
  have hdrop : (hf.ridsOf n).drop k = [] :=
    List.drop_eq_nil_iff.mpr (by simpa [HeapFile.ridsOf] using hk)
  rw [rest, hdrop, List.range'_zero, List.flatMap_nil, List.append_nil]

/-- The pages of the file open, with the directory the contents say. -/
theorem openPage_count (hv : hf.Valid) {n : Nat} (hn : n < hf.pageCount) :
    ∃ p, hf.openPage n = .ok p ∧ getDirCount p = .ok (hf.contentsOf n).length := by
  obtain ⟨p, hp⟩ := hv.openPage_eq hn
  exact ⟨p, hp, (hv.openPage_ok hp).1.getDirCount_eq⟩

/-- The visits to the slots come to the rows. -/
def Visits (hf : HeapFile) (tm : TransactionManager) (txId : TxID) (readFuel : Nat)
    (row : RID → Option Record) : Prop :=
  ∀ n i : Nat, i < (hf.contentsOf n).length →
    visit hf tm txId readFuel ⟨n, i⟩ = .ok (some (Turn.ofRow (row ⟨n, i⟩)))

variable (hv : hf.Valid) (hvisit : Visits hf tm txId readFuel row)

include hv

include hvisit in
theorem turn_slot {n m k : Nat} (hn : n < hf.pageCount) (hk : k < (hf.contentsOf n).length) :
    turn hf tm txId readFuel (before n m k) =
      .ok (some (Turn.ofRow (row ⟨n, k⟩), before n m (k + 1))) := by
  obtain ⟨p, hp, hcount⟩ := openPage_count hv hn
  have hpos : ((k : Int) - 1) + 1 = k := by omega
  simp only [turn, before, Bool.false_eq_true, if_false, hp, Outcome.ok_bind, hcount, hpos]
  rw [if_neg (by omega), hvisit n k hk]
  simp

variable (tm txId readFuel) in
theorem turn_page {n m k : Nat} (hn : n < hf.pageCount) (hk : (hf.contentsOf n).length ≤ k) :
    turn hf tm txId readFuel (before n (m + 1) k) = .ok (some (.again, before (n + 1) m 0)) := by
  obtain ⟨p, hp, hcount⟩ := openPage_count hv hn
  have hpos : ((k : Int) - 1) + 1 = k := by omega
  simp only [turn, before, Bool.false_eq_true, if_false, hp, Outcome.ok_bind, hcount, hpos]
  rw [if_pos (by omega), if_pos (by omega)]
  simp [Nat.add_comm, Nat.add_left_comm]

variable (tm txId readFuel) in
theorem turn_end {n k : Nat} (hn : n < hf.pageCount) (hk : (hf.contentsOf n).length ≤ k) :
    turn hf tm txId readFuel (before n 0 k) =
      .ok (some (.finished, { before n 0 k with exhausted := true })) := by
  obtain ⟨p, hp, hcount⟩ := openPage_count hv hn
  have hpos : ((k : Int) - 1) + 1 = k := by omega
  simp only [turn, before, Bool.false_eq_true, if_false, hp, Outcome.ok_bind, hcount, hpos]
  rw [if_pos (by omega), if_neg (by omega)]

variable (tm txId row) in
/-- `next` returns the first row that is left, or the invalid record; more fuel than there are
iterations left changes nothing. -/
theorem next_spec : ∀ (left n m k : Nat), weight hf n m k ≤ left → n + m < hf.pageCount →
    ((rest hf n m k).filterMap row = [] ∧ ∃ it, ∀ readFuel fuel,
      Visits hf tm txId readFuel row → left ≤ fuel →
        next hf tm txId readFuel fuel (before n m k) = .ok (some (Record.empty, it))) ∨
    ∃ record n' m' k', (rest hf n m k).filterMap row =
        record :: (rest hf n' m' k').filterMap row ∧
      (∀ readFuel fuel, Visits hf tm txId readFuel row → left ≤ fuel →
        next hf tm txId readFuel fuel (before n m k) =
          .ok (some (record, before n' m' k'))) ∧
      n' + m' = n + m ∧ weight hf n' m' k' < weight hf n m k := by
  intro left
  induction left with
  | zero =>
      intro n m k hw
      simp [weight] at hw
  | succ left ih =>
      intro n m k hw hn
      -- the first iteration, then the others
      have hgo : ∀ {n' m' k' : Nat} {res : Record × HeapFileIter},
          (∀ readFuel, Visits hf tm txId readFuel row → turn hf tm txId readFuel (before n m k) =
            .ok (some (.again, before n' m' k'))) →
          (∀ readFuel fuel, Visits hf tm txId readFuel row → left ≤ fuel →
            next hf tm txId readFuel fuel (before n' m' k') = .ok (some res)) →
          ∀ readFuel fuel, Visits hf tm txId readFuel row → left + 1 ≤ fuel →
            next hf tm txId readFuel fuel (before n m k) = .ok (some res) := by
        intro n' m' k' res hturn hnext readFuel fuel hvisit hfuel
        obtain ⟨fuel, rfl⟩ := Nat.exists_eq_add_of_le' (show 1 ≤ fuel by omega)
        simp only [next, hturn readFuel hvisit, Outcome.ok_bind]
        exact hnext readFuel fuel hvisit (by omega)
      rcases Nat.lt_or_ge k (hf.contentsOf n).length with hk | hk
      · have hturn := fun readFuel (hvisit : Visits hf tm txId readFuel row) =>
          turn_slot hv hvisit (m := m) (show n < hf.pageCount by omega) hk
        have hless : weight hf n m (k + 1) < weight hf n m k := by
          unfold weight
          omega
        rw [rest_cons hk]
        cases hrow : row ⟨n, k⟩ with
        | none =>
            simp only [hrow, Turn.ofRow] at hturn
            rw [List.filterMap_cons_none hrow]
            rcases ih n m (k + 1) (by omega) hn with
              ⟨hend, it, hnext⟩ | ⟨r, n', m', k', h1, h2, h3, h4⟩
            · exact .inl ⟨hend, it, hgo hturn hnext⟩
            · exact .inr ⟨r, n', m', k', h1, hgo hturn h2, h3, h4.trans hless⟩
        | some record =>
            simp only [hrow, Turn.ofRow] at hturn
            refine .inr ⟨record, n, m, k + 1, List.filterMap_cons_some hrow,
              fun readFuel fuel hvisit hfuel => ?_, rfl, hless⟩
            obtain ⟨fuel, rfl⟩ := Nat.exists_eq_add_of_le' (show 1 ≤ fuel by omega)
            simp only [next, hturn readFuel hvisit, Outcome.ok_bind]
      · cases m with
        | zero =>
            left
            rw [rest_end hk]
            refine ⟨rfl, { before n 0 k with exhausted := true },
              fun readFuel fuel hvisit hfuel => ?_⟩
            obtain ⟨fuel, rfl⟩ := Nat.exists_eq_add_of_le' (show 1 ≤ fuel by omega)
            simp only [next, turn_end tm txId readFuel hv (show n < hf.pageCount by omega) hk,
              Outcome.ok_bind]
        | succ m =>
            have hturn := fun readFuel (_ : Visits hf tm txId readFuel row) =>
              turn_page tm txId readFuel hv (m := m) (show n < hf.pageCount by omega) hk
            have hless : weight hf (n + 1) m 0 < weight hf n (m + 1) k := by
              simp only [weight, List.range'_succ, List.map_cons, List.sum_cons]
              omega
            rw [rest_page hk]
            rcases ih (n + 1) m 0 (by omega) (by omega) with
              ⟨hend, it, hnext⟩ | ⟨r, n', m', k', h1, h2, h3, h4⟩
            · exact .inl ⟨hend, it, hgo hturn hnext⟩
            · exact .inr ⟨r, n', m', k', h1, hgo hturn h2, by omega, h4.trans hless⟩

include hvisit in
/-- Calling `next` to the end returns the rows that are left. -/
theorem collect_spec (hrow : ∀ rid record, row rid = some record → record.invalid = false) :
    ∀ (fuel n m k : Nat), weight hf n m k ≤ fuel → weight hf n m k ≤ readFuel →
      n + m < hf.pageCount →
      collect hf tm txId readFuel fuel (before n m k) =
        .ok (some ((rest hf n m k).filterMap row)) := by
  intro fuel
  induction fuel with
  | zero =>
      intro n m k hw
      simp [weight] at hw
  | succ fuel ih =>
      intro n m k hw hread hn
      rcases next_spec tm txId row hv _ n m k (le_refl _) hn with
        ⟨hrest, it, hnext⟩ | ⟨record, n', m', k', hrest, hnext, hsum, hless⟩
      · simp only [collect, hnext readFuel readFuel hvisit hread, Outcome.ok_bind, hrest]
        rfl
      · have hmem : record ∈ (rest hf n m k).filterMap row := by
          rw [hrest]
          exact List.mem_cons_self
        obtain ⟨rid, _, hrid⟩ := List.mem_filterMap.mp hmem
        have htail := ih n' m' k' (by omega) (by omega) (by omega)
        simp only [collect, hnext readFuel readFuel hvisit hread, Outcome.ok_bind,
          hrow rid record hrid, htail, hrest]
        rfl

end Scan

/-- A new iterator has visited nothing. -/
theorem create_before {hf hf' : HeapFile} {it : HeapFileIter} (hv : hf.Valid)
    (hcreate : create hf = .ok (it, hf')) :
    ∃ pages, hf'.pageCount = pages + 1 ∧ it = before 0 pages 0 ∧ hf'.rids = rest hf' 0 pages 0 := by
  obtain ⟨_, _, _, hit, hpos⟩ := create_ok hv hcreate
  obtain ⟨pages, hpages⟩ : ∃ pages, hf'.pageCount = pages + 1 := ⟨hf'.pageCount - 1, by omega⟩
  refine ⟨pages, hpages, ?_, ?_⟩
  · rw [hit, hpages, before]
    simp [Nat.add_comm]
  · rw [HeapFile.rids, hpages, List.range_eq_range', List.range'_succ, List.flatMap_cons, rest,
      List.drop_zero]

/-- A full scan returns, in file order, the rows of the slots. -/
theorem scan_spec {hf hf' : HeapFile} {it : HeapFileIter} (tm : TransactionManager) (txId : TxID)
    {row : RID → Option Record} (hv : hf.Valid) (hcreate : create hf = .ok (it, hf'))
    (hrow : ∀ rid record, row rid = some record → record.invalid = false) :
    ∃ needed, ∀ fuel, needed ≤ fuel →
      Visits hf' tm txId fuel row →
      scan hf tm txId fuel = .ok (some (hf'.rids.filterMap row)) := by
  obtain ⟨pages, hpages, hat, hrids⟩ := create_before hv hcreate
  have hv' := (create_ok hv hcreate).1
  refine ⟨weight hf' 0 pages 0, fun fuel hfuel hvisit => ?_⟩
  simp only [scan, hcreate, Outcome.ok_bind]
  rw [hat, hrids]
  exact collect_spec hv' hvisit hrow fuel 0 pages 0 hfuel hfuel (by omega)

end HeapFileIter

end Iic3413Db.Storage
