/-
  Storage/HeapFile/ScanGrowth.lean --- scans of a file that grows under them.

  Inserts append pages and directory entries and take none away, so a scan that has begun
  visits the positions that were there, and new ones.  `Stores` is what a new version does to
  the file, wherever the page search places it.
-/
import Iic3413Db.Storage.HeapFile.InsertLoop
import Iic3413Db.Storage.HeapFile.HeapFileScan

set_option autoImplicit false

namespace Iic3413Db.Storage

open Iic3413Db.RelationalModel HeapFilePage

theorem Contents.length_le_place (cs : Contents) (i : Nat)
    (entry : Option (RecordHeader × List Value)) : cs.length ≤ (cs.place i entry).length := by
  unfold Contents.place
  split <;> simp

namespace HeapFile

/-- Every position of `hf` is one of `hf'`. -/
structure Grows (hf hf' : HeapFile) : Prop where
  count : hf.pageCount ≤ hf'.pageCount
  dirs : ∀ n, (hf.contentsOf n).length ≤ (hf'.contentsOf n).length

section Grows

variable {hf hf' hf'' : HeapFile} {record : Record} {txId : TxID} {firstRid : Option RID}

theorem Grows.refl (hf : HeapFile) : Grows hf hf := ⟨le_refl _, fun _ => le_refl _⟩

theorem Grows.trans (h : Grows hf hf') (h' : Grows hf' hf'') : Grows hf hf'' :=
  ⟨h.count.trans h'.count, fun n => (h.dirs n).trans (h'.dirs n)⟩

theorem Grows.setPage {n : Nat} {p : Page} {cs : Contents} (hlaid : Laid hf.schema p cs)
    (hle : (hf.contentsOf n).length ≤ cs.length) : Grows hf (hf.setPage n p) := by
  refine ⟨le_max_left .., fun m => ?_⟩
  rw [setPage_contentsOf hlaid]
  split
  · rename_i hm
    rw [hm]
    exact hle
  · exact le_refl _

theorem Grows.advance (h : Grows hf hf') (n : Nat) :
    Grows hf { hf' with lastInsertPage := n } := ⟨h.count, h.dirs⟩

theorem Valid.insertPass_grows (hv : hf.Valid) {res : Option RID}
    (hfits : InsertFits hf.schema record txId firstRid)
    (h : hf.insertPass record txId firstRid = .ok (res, hf')) : Grows hf hf' := by
  obtain ⟨p, hp, h⟩ := Outcome.of_bind_ok h
  obtain ⟨⟨r, q⟩, hins, h⟩ := Outcome.of_bind_ok h
  obtain ⟨hlaid, hid, hend⟩ := hv.openPage_ok hp
  have hn : -2 ^ 31 ≤ p.pageId.pageNumber ∧ p.pageId.pageNumber < 2 ^ 31 := by
    rw [hid]
    constructor <;> omega
  have hgrows : Grows hf (hf.setPage hf.lastInsertPage q) := by
    rcases hlaid.tryInsertRecord hfits hn hins with ⟨_, rfl⟩ | ⟨_, _, hlaid'⟩
    · exact .setPage hlaid (le_refl _)
    · exact .setPage hlaid' (Contents.length_le_place ..)
  cases r with
  | none =>
      cases h
      exact hgrows.advance _
  | some rid =>
      cases h
      exact hgrows

theorem Valid.updateRecordHeader_grows (hv : hf.Valid) {rid newRid : RID} {header : RecordHeader}
    {values : List Value} (hslot : hf.slot rid = some (header, values)) (htx : txId < 2 ^ 64)
    (hrid : newRid.Fits) (h : hf.updateRecordHeader rid newRid txId = .ok hf') :
    Grows hf hf' := by
  obtain ⟨n, i, rfl, hi⟩ := exists_nat_of_slot hslot
  obtain ⟨p, hp, h⟩ := Outcome.of_bind_ok h
  obtain ⟨q, hq, h⟩ := Outcome.of_bind_ok h
  obtain ⟨q', hq', _, hlaid⟩ := (hv.openPage_ok hp).1.updateRecordHeader hi htx hrid
  rw [hq] at hq'
  cases hq'
  cases h
  exact .setPage hlaid (by rw [List.length_set, Int.toNat_natCast])

/-! ## New versions -/

/-- `hf'` is `hf` with one slot filled. -/
structure Stores (hf : HeapFile) (rid : RID) (e : RecordHeader × List Value) (hf' : HeapFile) :
    Prop where
  valid : hf'.Valid
  schema : hf'.schema = hf.schema
  free : hf.slot rid = none
  slot : hf'.slot = Function.update hf.slot rid (some e)
  grows : Grows hf hf'

theorem Valid.openPage_error_text (hv : hf.Valid) {e : Fault}
    (h : hf.openPage hf.lastInsertPage = .error e) :
    e = .runtimeError "Could not write into file" := by
  unfold openPage at h
  rw [if_neg (by omega)] at h
  split at h
  · exact (Except.error.inj h).symm
  · rcases hv.page hf.lastInsertPage with hblank | ⟨cs, hlaid⟩
    · obtain ⟨q, hq, _⟩ := hblank.construct_laid hf.schema
      rw [Int.toNat_natCast, hq] at h
      cases h
    · rw [Int.toNat_natCast, hlaid.construct_eq] at h
      cases h

/-- What the loop of `insert_record` comes to, if it ends. -/
theorem Valid.insertRecord_cases (hv : hf.Valid)
    (hfits : InsertFits hf.schema record txId firstRid) (passes : Nat) :
    (insertRecord record txId firstRid passes hf).1 = none ∨
      (∃ e hf', insertRecord record txId firstRid passes hf = (some (.error e), hf') ∧
        (e = Page.outOfBounds ∨ e = .runtimeError "Could not write into file" ∧ hf'.Full)) ∨
      ∃ rid hf', insertRecord record txId firstRid passes hf = (some (.ok rid), hf') ∧
        Stores hf rid (⟨txId, 0, rid, firstRid.getD rid⟩, record.stored) hf' := by
  induction passes generalizing hf with
  | zero => exact .inl rfl
  | succ passes ih =>
      cases hpass : hf.insertPass record txId firstRid with
      | error e =>
          refine .inr (.inl ⟨e, hf, insertRecord_error hpass, ?_⟩)
          rcases Outcome.of_bind_error hpass with hopen | ⟨p, hopen, hrest⟩
          · exact .inr ⟨hv.openPage_error_text hopen, (hv.openPage_error hopen).2.1⟩
          · rcases Outcome.of_bind_error hrest with hins | ⟨⟨_ | rid, q⟩, _, hdone⟩
            · exact .inl ((assertsBounds_tryInsertRecord ..).fault e hins)
            · cases hdone
            · cases hdone
      | ok res =>
          obtain ⟨_ | rid, hf₁⟩ := res
          · obtain ⟨hv₁, hschema, ⟨_, hslot⟩ | ⟨_, hnone, _⟩⟩ := hv.insertPass_ok hfits hpass
            · have hgrows := hv.insertPass_grows hfits hpass
              rw [← hschema] at hfits
              rw [insertRecord_succ hpass]
              rcases ih hv₁ hfits with h | h | ⟨rid, hf', hrun, hstores⟩
              · exact .inl h
              · exact .inr (.inl h)
              · obtain ⟨hv', hschema', hfree, hslot', hgrows'⟩ := hstores
                rw [hslot] at hfree hslot'
                exact .inr (.inr ⟨rid, hf', hrun, hv', hschema'.trans hschema, hfree, hslot',
                  hgrows.trans hgrows'⟩)
            · cases hnone
          · obtain ⟨hv₁, hschema, ⟨hnone, _⟩ | ⟨_, hrid, hfree, hslot⟩⟩ :=
              hv.insertPass_ok hfits hpass
            · cases hnone
            · cases hrid
              exact .inr (.inr ⟨rid, hf₁, insertRecord_stored hpass, hv₁, hschema, hfree, hslot,
                hv.insertPass_grows hfits hpass⟩)

/-- A number of passes that is enough is exceeded without effect. -/
theorem insertRecord_mono {passes passes' : Nat} {r : Outcome RID}
    (hle : passes ≤ passes') (h : insertRecord record txId firstRid passes hf = (some r, hf')) :
    insertRecord record txId firstRid passes' hf = (some r, hf') := by
  induction passes generalizing hf passes' with
  | zero => cases h
  | succ passes ih =>
      obtain ⟨more, rfl⟩ := Nat.exists_eq_add_of_le' hle
      rw [← Nat.add_assoc]
      cases hpass : hf.insertPass record txId firstRid with
      | error e => rwa [insertRecord_error hpass] at h ⊢
      | ok res =>
          obtain ⟨_ | rid, hf₁⟩ := res
          · rw [insertRecord_succ hpass] at h ⊢
            exact ih (by omega) h
          · rwa [insertRecord_stored hpass] at h ⊢

/-- The place of a record that is stored. -/
theorem Valid.insertPass_place (hv : hf.Valid) (hfits : InsertFits hf.schema record txId firstRid)
    {rid : RID} (h : hf.insertPass record txId firstRid = .ok (some rid, hf')) :
    ∃ cs, hf.contentsOf hf.lastInsertPage = cs ∧ rid = ⟨hf.lastInsertPage, cs.firstFree⟩ ∧
      hf'.lastInsertPage = hf.lastInsertPage ∧
      hf'.pageCount = max hf.pageCount (hf.lastInsertPage + 1) ∧
      ∀ m, hf'.contentsOf m = if m = hf.lastInsertPage then
        cs.place cs.firstFree (some (⟨txId, 0, rid, firstRid.getD rid⟩, record.stored))
      else hf.contentsOf m := by
  obtain ⟨p, hp, hrest⟩ := Outcome.of_bind_ok h
  obtain ⟨⟨_ | rid', q⟩, hins, hdone⟩ := Outcome.of_bind_ok hrest
  · cases hdone
  · cases hdone
    obtain ⟨hlaid, hid, hend⟩ := hv.openPage_ok hp
    have hn : -2 ^ 31 ≤ p.pageId.pageNumber ∧ p.pageId.pageNumber < 2 ^ 31 := by
      rw [hid]
      constructor <;> omega
    rcases hlaid.tryInsertRecord hfits hn hins with ⟨hnone, _⟩ | ⟨hrid, _, hlaid'⟩
    · cases hnone
    · cases hrid
      rw [hid] at hlaid' ⊢
      exact ⟨_, rfl, rfl, rfl, rfl, setPage_contentsOf hlaid'⟩

/-! ## Pages -/

/-- A page at most is appended for each pass beyond the file. -/
theorem insertRecord_count (passes : Nat) :
    (insertRecord record txId firstRid passes hf).2.pageCount ≤
      max hf.pageCount (hf.lastInsertPage + passes) := by
  induction passes generalizing hf with
  | zero => exact le_max_left ..
  | succ passes ih =>
      cases hpass : hf.insertPass record txId firstRid with
      | error e =>
          rw [insertRecord_error hpass]
          exact le_max_left ..
      | ok res =>
          obtain ⟨p, _, hrest⟩ := Outcome.of_bind_ok hpass
          obtain ⟨⟨_ | rid, q⟩, _, hdone⟩ := Outcome.of_bind_ok hrest
          · cases hdone
            rw [insertRecord_succ hpass]
            refine ih.trans ?_
            show max (max hf.pageCount (hf.lastInsertPage + 1)) (hf.lastInsertPage + 1 + passes) ≤ _
            omega
          · cases hdone
            rw [insertRecord_stored hpass]
            show max hf.pageCount (hf.lastInsertPage + 1) ≤ _
            omega

/-- A record that is stored would fit on a fresh page. -/
theorem Valid.insertRecord_fits (hv : hf.Valid) (hfits : InsertFits hf.schema record txId firstRid)
    {passes : Nat} {rid : RID}
    (h : insertRecord record txId firstRid passes hf = (some (.ok rid), hf')) :
    FitsFreshPage record := by
  induction passes generalizing hf with
  | zero => cases h
  | succ passes ih =>
      cases hpass : hf.insertPass record txId firstRid with
      | error e =>
          rw [insertRecord_error hpass] at h
          cases h
      | ok res =>
          obtain ⟨_ | rid', hf₁⟩ := res
          · obtain ⟨hv₁, hschema, _⟩ := hv.insertPass_ok hfits hpass
            rw [insertRecord_succ hpass] at h
            exact ih hv₁ (hschema ▸ hfits) h
          · obtain ⟨p, hopen, hrest⟩ := Outcome.of_bind_ok hpass
            obtain ⟨⟨res, q⟩, hins, hdone⟩ := Outcome.of_bind_ok hrest
            rcases hv.tryInsertRecord_cases hopen hfits with ⟨e, hins'⟩ | hins' | ⟨hfit, _⟩
            · rw [hins] at hins'
              cases hins'
            · rw [hins] at hins'
              cases hins'
              cases hdone
            · exact hfit

theorem Valid.updateRecordHeader_count (hv : hf.Valid) {rid newRid : RID}
    {e : RecordHeader × List Value} (hslot : hf.slot rid = some e)
    (h : hf.updateRecordHeader rid newRid txId = .ok hf') : hf'.pageCount = hf.pageCount := by
  obtain ⟨n, i, rfl, hi⟩ := exists_nat_of_slot hslot
  have hlt := hv.lt_pageCount hi
  obtain ⟨p, _, h⟩ := Outcome.of_bind_ok h
  obtain ⟨q, _, h⟩ := Outcome.of_bind_ok h
  cases h
  show max hf.pageCount (n + 1) = hf.pageCount
  omega

end Grows

end HeapFile

/-! ## The positions left -/

namespace HeapFileIter

variable {hf hf' : HeapFile} {row : RID → Option Record} {n m k : Nat} {rid : RID}

theorem nodup_rest : (rest hf n m k).Nodup := by
  refine List.nodup_append.mpr ⟨(HeapFile.nodup_ridsOf n).sublist (List.drop_sublist ..), ?_, ?_⟩
  · refine List.nodup_flatMap.mpr ⟨fun p _ => HeapFile.nodup_ridsOf p, ?_⟩
    refine (List.nodup_range' (s := n + 1) (n := m)).imp ?_
    intro p q hne rid hp hq
    obtain ⟨i, _, rfl⟩ := HeapFile.mem_ridsOf.mp hp
    obtain ⟨j, _, heq⟩ := HeapFile.mem_ridsOf.mp hq
    simp only [RID.mk.injEq, Nat.cast_inj] at heq
    exact hne heq.1
  · rintro a ha _ hb rfl
    obtain ⟨i, _, rfl⟩ := HeapFile.mem_ridsOf.mp (List.mem_of_mem_drop ha)
    obtain ⟨p, hp, hrid⟩ := List.mem_flatMap.mp hb
    obtain ⟨j, _, heq⟩ := HeapFile.mem_ridsOf.mp hrid
    simp only [RID.mk.injEq, Nat.cast_inj] at heq
    have hlt := (List.mem_range'_1.mp hp).1
    omega

/-- New positions of a page are behind the others. -/
theorem ridsOf_grows (h : HeapFile.Grows hf hf') (n : Nat) :
    ∃ new, hf'.ridsOf n = hf.ridsOf n ++ new ∧
      ∀ rid ∈ new, ∃ i : Nat, rid = ⟨n, i⟩ ∧ (hf.contentsOf n).length ≤ i := by
  obtain ⟨extra, hextra⟩ := Nat.exists_eq_add_of_le (h.dirs n)
  refine ⟨(List.range extra).map fun i => ⟨n, ((hf.contentsOf n).length + i : Nat)⟩, ?_, ?_⟩
  · rw [HeapFile.ridsOf, HeapFile.ridsOf, hextra, List.range_add, List.map_append, List.map_map]
    rfl
  · intro rid hrid
    obtain ⟨i, _, rfl⟩ := List.mem_map.mp hrid
    exact ⟨_, rfl, Nat.le_add_right ..⟩

/-- Where nothing was stored there is no row, so new positions add none. -/
theorem filterMap_ridsOf_grows (h : HeapFile.Grows hf hf')
    (hrow : ∀ rid, (row rid).isSome → (hf.slot rid).isSome) (n k : Nat) :
    ((hf'.ridsOf n).drop k).filterMap row = ((hf.ridsOf n).drop k).filterMap row := by
  obtain ⟨new, heq, hnew⟩ := ridsOf_grows h n
  rw [heq, List.drop_append, List.filterMap_append]
  refine List.append_right_eq_self.mpr (List.filterMap_eq_nil_iff.mpr fun rid hrid => ?_)
  obtain ⟨i, rfl, hi⟩ := hnew rid (List.mem_of_mem_drop hrid)
  refine Option.not_isSome_iff_eq_none.mp fun hsome => ?_
  have hslot := hrow _ hsome
  rw [HeapFile.slot_nat, List.getElem?_eq_none_iff.mpr hi] at hslot
  cases hslot

/-- A scan under way has the same rows to come. -/
theorem filterMap_rest_grows (h : HeapFile.Grows hf hf')
    (hrow : ∀ rid, (row rid).isSome → (hf.slot rid).isSome) :
    (rest hf' n m k).filterMap row = (rest hf n m k).filterMap row := by
  rw [rest, rest, List.filterMap_append, List.filterMap_append, filterMap_ridsOf_grows h hrow,
    List.filterMap_flatMap, List.filterMap_flatMap]
  refine congrArg _ (List.flatMap_congr fun p _ => ?_)
  have hpage := filterMap_ridsOf_grows h hrow p 0
  rwa [List.drop_zero, List.drop_zero] at hpage

end HeapFileIter

end Iic3413Db.Storage
