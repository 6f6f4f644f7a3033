/-
  Storage/HeapFile/InsertLoop.lean --- the loop of `insert_record`, run by one session.

  A pass either stores the record or moves `last_insert_page` on.  The pages the file has are
  tried once; the page after them is a fresh one, so a record a fresh page takes is stored
  there at the latest, and any other record is refused by every page.
-/
import Iic3413Db.Storage.HeapFile.HeapFileSlots

set_option autoImplicit false

namespace Iic3413Db.Storage

open Iic3413Db.Foundation Iic3413Db.RelationalModel HeapFilePage

/-! ## What a page access can fail with -/

/-- A failing `x` fails the assertion of `storage/page.cc`. -/
structure AssertsBounds {α : Type} (x : Outcome α) : Prop where
  fault : ∀ e, x = .error e → e = Page.outOfBounds

section Asserts

variable {α β : Type}

theorem AssertsBounds.ok (a : α) : AssertsBounds (.ok a : Outcome α) where
  fault _ h := nomatch h

theorem AssertsBounds.bind {x : Outcome α} {f : α → Outcome β} (hx : AssertsBounds x)
    (hf : ∀ a, AssertsBounds (f a)) : AssertsBounds (x >>= f) where
  fault e h := by
    rcases Outcome.of_bind_error h with hx' | ⟨a, _, hf'⟩
    · exact hx.fault e hx'
    · exact (hf a).fault e hf'

theorem AssertsBounds.ite {c : Prop} [Decidable c] {x y : Outcome α} (hx : AssertsBounds x)
    (hy : AssertsBounds y) : AssertsBounds (if c then x else y) := by
  split
  · exact hx
  · exact hy

theorem assertsBounds_read (p : Page) (offset : Int) (size : Nat) :
    AssertsBounds (p.read offset size) := by
  unfold Page.read
  split
  · exact .ok _
  · exact ⟨fun e h => (Except.error.inj h).symm⟩

theorem assertsBounds_write (p : Page) (offset : Int) (data : List UInt8) :
    AssertsBounds (p.write offset data) := by
  unfold Page.write
  split
  · exact .ok _
  · exact ⟨fun e h => (Except.error.inj h).symm⟩

theorem assertsBounds_readInt32 (p : Page) (offset : Int) : AssertsBounds (p.readInt32 offset) :=
  (assertsBounds_read ..).bind fun _ => .ok _

theorem assertsBounds_findDirPos (p : Page) (dirCount : Int) : ∀ (fuel : Nat) (dirPos : Int),
    AssertsBounds (findDirPos p dirCount fuel dirPos) := by
  intro fuel
  induction fuel with
  | zero => exact fun _ => .ok _
  | succ fuel ih =>
      intro dirPos
      exact .ite ((assertsBounds_readInt32 ..).bind fun _ => .ite (ih _) (.ok _)) (.ok _)

theorem assertsBounds_writeValues : ∀ (values : List Value) (offset : Int) (p : Page),
    AssertsBounds (writeValues values offset p) := by
  intro values
  induction values with
  | nil => exact fun _ _ => .ok _
  | cons value values ih =>
      intro offset p
      cases value with
      | string s =>
          exact (assertsBounds_write ..).bind fun _ => (assertsBounds_write ..).bind fun _ => ih ..
      | int i => exact (assertsBounds_write ..).bind fun _ => ih ..
      | rid rid => exact ih ..

theorem assertsBounds_writeTuple (p : Page) (record : Record) (dirPos offset : Int) (txId : TxID)
    (firstRid : Option RID) : AssertsBounds (writeTuple p record dirPos offset txId firstRid) := by
  refine (assertsBounds_write ..).bind fun _ => ?_
  refine (assertsBounds_write ..).bind fun _ => (assertsBounds_write ..).bind fun _ => ?_
  refine (assertsBounds_write ..).bind fun _ => (assertsBounds_write ..).bind fun _ => ?_
  refine (assertsBounds_write ..).bind fun _ => (assertsBounds_write ..).bind fun _ => ?_
  exact assertsBounds_writeValues ..

theorem assertsBounds_setFreeSpace (p : Page) (freeSpace : Int) :
    AssertsBounds (setFreeSpace p freeSpace) := by
  unfold setFreeSpace Page.writeInt32
  exact assertsBounds_write ..

theorem assertsBounds_setDirCount (p : Page) (dirCount : Int) :
    AssertsBounds (setDirCount p dirCount) := by
  unfold setDirCount Page.writeInt32
  exact assertsBounds_write ..

theorem assertsBounds_tryInsertRecord (p : Page) (record : Record) (txId : TxID)
    (firstRid : Option RID) : AssertsBounds (tryInsertRecord p record txId firstRid) := by
  unfold tryInsertRecord
  refine (assertsBounds_readInt32 ..).bind fun dirCount => ?_
  refine (assertsBounds_findDirPos ..).bind fun dirPos => ?_
  refine (assertsBounds_readInt32 ..).bind fun freeSpace => ?_
  split
  · refine .ite (.ok _) ((assertsBounds_setFreeSpace ..).bind fun _ => ?_)
    exact (assertsBounds_writeTuple ..).bind fun _ => .ok _
  · refine .ite (.ok _) ((assertsBounds_setDirCount ..).bind fun _ => ?_)
    refine (assertsBounds_setFreeSpace ..).bind fun _ => ?_
    exact (assertsBounds_writeTuple ..).bind fun _ => .ok _

end Asserts

/-! ## The loop -/

namespace HeapFile

/-- The loop of `insert_record`, for a number of passes; `none` is a loop that goes on.  The
pages it has appended stay when it throws. -/
def insertRecord (record : Record) (txId : TxID) (firstRid : Option RID) :
    Nat → HeapFile → Option (Outcome RID) × HeapFile
  | 0, hf => (none, hf)
  | passes + 1, hf =>
      match hf.insertPass record txId firstRid with
      | .error e => (some (.error e), hf)
      | .ok (some rid, hf) => (some (.ok rid), hf)
      | .ok (none, hf) => insertRecord record txId firstRid passes hf

/-- `insert_record` stores the record or throws, and appends no page but the one after those
the file has. -/
def InsertEnds (hf : HeapFile) (record : Record) (txId : TxID) (firstRid : Option RID) : Prop :=
  (∃ rid hf', insertRecord record txId firstRid (hf.pageCount - hf.lastInsertPage + 1) hf =
      (some (.ok rid), hf') ∧
    hf'.slot rid = some (⟨txId, 0, rid, firstRid.getD rid⟩, record.stored)) ∨
  ∃ e hf', insertRecord record txId firstRid (hf.pageCount - hf.lastInsertPage + 1) hf =
      (some (.error e), hf') ∧
    e.isException

/-- A fresh page takes the record, its header and a directory entry. -/
def FitsFreshPage (record : Record) : Prop := valuesSize record.values + 36 ≤ 4088

/-- One page more would end past 2 GiB. -/
def Full (hf : HeapFile) : Prop := 2 ^ 31 ≤ 4096 * (hf.pageCount + 1)

/-- `try_insert_record` on the page returns false. -/
def Refuses (hf : HeapFile) (record : Record) (txId : TxID) (firstRid : Option RID) (n : Nat) :
    Prop :=
  ∃ page, hf.openPage n = .ok page ∧
    tryInsertRecord page record txId firstRid = .ok (none, page)

variable {hf : HeapFile} {record : Record} {txId : TxID} {firstRid : Option RID}

/-! ## One pass -/

/-- A pass on a page that refuses. -/
theorem insertPass_refused {p : Page} (hopen : hf.openPage hf.lastInsertPage = .ok p)
    (h : tryInsertRecord p record txId firstRid = .ok (none, p)) :
    hf.insertPass record txId firstRid =
      .ok (none, { hf.setPage hf.lastInsertPage p with lastInsertPage := hf.lastInsertPage + 1 }) := by
  simp only [insertPass, hopen, Outcome.ok_bind, h]
  rfl

/-- What is known of the file after such a pass. -/
theorem Valid.refused (hv : hf.Valid) {p : Page} (hopen : hf.openPage hf.lastInsertPage = .ok p) :
    Valid { hf.setPage hf.lastInsertPage p with lastInsertPage := hf.lastInsertPage + 1 } := by
  obtain ⟨hlaid, hid, hend⟩ := hv.openPage_ok hopen
  exact (hv.setPage hlaid hid hend).advance (le_max_right ..)

/-- The pages behind are as they were. -/
theorem openPage_refused {p : Page} {n : Nat} (hlt : hf.lastInsertPage < hf.pageCount)
    (hn : hf.lastInsertPage < n) :
    openPage { hf.setPage hf.lastInsertPage p with lastInsertPage := hf.lastInsertPage + 1 } n =
      hf.openPage n := by
  have hcount : max hf.pageCount (hf.lastInsertPage + 1) = hf.pageCount := by omega
  have hpage : Function.update hf.pages hf.lastInsertPage p n = hf.pages n :=
    Function.update_of_ne (by omega) ..
  simp only [openPage, setPage, hcount, Int.toNat_natCast, hpage]

/-- A record that is stored fits a fresh page: a page with an entry to reuse has at least that
entry's four bytes less to give. -/
theorem fits_of_stored {schema : Schema} {p q : Page} {cs : Contents} {rid : RID}
    (hlaid : Laid schema p cs) (hfits : InsertFits schema record txId firstRid)
    (hn : -2 ^ 31 ≤ p.pageId.pageNumber ∧ p.pageId.pageNumber < 2 ^ 31)
    (h : tryInsertRecord p record txId firstRid = .ok (some rid, q)) : FitsFreshPage record := by
  obtain ⟨sp, hr, rfl, _⟩ := hlaid
  rcases tryInsertRecord_ok hfits.values h with ⟨hnone, _⟩ | hsmall
  · cases hnone
  · have hroom : RoomFits sp.slots.length sp.contents.firstFree record := by
      unfold RoomFits insertSize
      split <;> omega
    have hle := sp.floor_le
    rcases tryInsertRecord_spec hr hfits hn hroom with ⟨_, hrefuse⟩ | ⟨_, sp', hspace, _⟩
    · rw [hrefuse] at h
      cases h
    · unfold insertSize at hspace
      unfold FitsFreshPage valuesSize
      split at hspace <;> omega

/-- Every page takes a record that fits a fresh one, or refuses it. -/
theorem Valid.tryInsertRecord_of_fits (hv : hf.Valid) {n : Nat} {p : Page}
    (hopen : hf.openPage n = .ok p) (hfits : InsertFits hf.schema record txId firstRid)
    (hfresh : FitsFreshPage record) :
    tryInsertRecord p record txId firstRid = .ok (none, p) ∨
      ∃ rid q, tryInsertRecord p record txId firstRid = .ok (some rid, q) := by
  obtain ⟨⟨sp, hr, hcontents, _⟩, hid, hend⟩ := hv.openPage_ok hopen
  have hn : -2 ^ 31 ≤ p.pageId.pageNumber ∧ p.pageId.pageNumber < 2 ^ 31 := by
    rw [hid]
    constructor <;> omega
  have hroom : RoomFits sp.slots.length sp.contents.firstFree record := by
    unfold FitsFreshPage valuesSize at hfresh
    unfold RoomFits insertSize
    split <;> omega
  rcases tryInsertRecord_spec hr hfits hn hroom with ⟨_, hrefuse⟩ | ⟨q, _, _, hinsert, _⟩
  · exact .inl hrefuse
  · exact .inr ⟨_, q, hinsert⟩

/-- The page after those the file has takes such a record. -/
theorem Valid.tryInsertRecord_fresh (hv : hf.Valid) {p : Page}
    (hopen : hf.openPage hf.pageCount = .ok p) (hfits : InsertFits hf.schema record txId firstRid)
    (hfresh : FitsFreshPage record) :
    ∃ rid q, tryInsertRecord p record txId firstRid = .ok (some rid, q) := by
  obtain ⟨_, hid, hend⟩ := hv.openPage_ok hopen
  have hn : -2 ^ 31 ≤ p.pageId.pageNumber ∧ p.pageId.pageNumber < 2 ^ 31 := by
    rw [hid]
    constructor <;> omega
  have hconstruct : construct (hf.pages hf.pageCount) = .ok p := by
    unfold openPage at hopen
    rwa [if_neg (by omega), if_neg (by omega), Int.toNat_natCast] at hopen
  obtain ⟨q, sp, hq, _, hr, hslots, hfree⟩ :=
    (hv.beyond _ (le_refl _)).construct_eq hf.schema
  rw [hconstruct] at hq
  obtain rfl := Except.ok.inj hq
  have hneed : insertSize sp.slots.length sp.contents.firstFree record =
      valuesSize record.values + 36 := by
    rw [insertSize, hslots, if_neg (by simp)]
    rfl
  unfold FitsFreshPage at hfresh
  rcases tryInsertRecord_spec hr hfits hn (by unfold RoomFits; omega) with
    ⟨hspace, _⟩ | ⟨q, _, _, hinsert, _⟩
  · omega
  · exact ⟨_, q, hinsert⟩

/-! ## All passes -/

theorem insertRecord_succ {passes : Nat} {hf' : HeapFile}
    (h : hf.insertPass record txId firstRid = .ok (none, hf')) :
    insertRecord record txId firstRid (passes + 1) hf =
      insertRecord record txId firstRid passes hf' := by
  simp only [insertRecord, h]

theorem insertRecord_stored {passes : Nat} {hf' : HeapFile} {rid : RID}
    (h : hf.insertPass record txId firstRid = .ok (some rid, hf')) :
    insertRecord record txId firstRid (passes + 1) hf = (some (.ok rid), hf') := by
  simp only [insertRecord, h]

theorem insertRecord_error {passes : Nat} {e : Fault}
    (h : hf.insertPass record txId firstRid = .error e) :
    insertRecord record txId firstRid (passes + 1) hf = (some (.error e), hf) := by
  simp only [insertRecord, h]

/-- A pass that stores ends the loop. -/
theorem Valid.ends_of_stored (hv : hf.Valid) (hfits : InsertFits hf.schema record txId firstRid)
    {p q : Page} {rid : RID} (hopen : hf.openPage hf.lastInsertPage = .ok p)
    (h : tryInsertRecord p record txId firstRid = .ok (some rid, q)) :
    InsertEnds hf record txId firstRid := by
  have hpass : hf.insertPass record txId firstRid =
      .ok (some rid, hf.setPage hf.lastInsertPage q) := by
    simp only [insertPass, hopen, Outcome.ok_bind, h]
  refine .inl ⟨rid, _, insertRecord_stored hpass, ?_⟩
  obtain ⟨_, _, ⟨hnone, _⟩ | ⟨rid', hrid, _, hslot⟩⟩ := hv.insertPass_ok hfits hpass
  · cases hnone
  · cases hrid
    rw [hslot, Function.update_self]

/-- A pass that refuses on a page the file has leaves the rest of the loop to do. -/
theorem ends_of_refused {p : Page} (hlt : hf.lastInsertPage < hf.pageCount)
    (hopen : hf.openPage hf.lastInsertPage = .ok p)
    (h : tryInsertRecord p record txId firstRid = .ok (none, p)) :
    InsertEnds hf record txId firstRid ↔
      InsertEnds { hf.setPage hf.lastInsertPage p with lastInsertPage := hf.lastInsertPage + 1 }
        record txId firstRid := by
  have hpasses : hf.pageCount - hf.lastInsertPage =
      max hf.pageCount (hf.lastInsertPage + 1) - (hf.lastInsertPage + 1) + 1 := by omega
  unfold InsertEnds
  rw [hpasses, insertRecord_succ (insertPass_refused hopen h)]
  rfl

/-- Only the page after the last can throw. -/
theorem Valid.openPage_error (hv : hf.Valid) {e : Fault}
    (h : hf.openPage hf.lastInsertPage = .error e) :
    hf.lastInsertPage = hf.pageCount ∧ hf.Full ∧ e.isException := by
  have hlast := hv.last
  rcases Nat.lt_or_ge hf.lastInsertPage hf.pageCount with hlt | hge
  · obtain ⟨p, hp⟩ := hv.openPage_eq hlt
    rw [hp] at h
    cases h
  · unfold openPage at h
    rw [if_neg (by omega), Int.toNat_natCast] at h
    split at h
    · rename_i hfull
      cases h
      refine ⟨by omega, ?_, rfl⟩
      unfold Full
      omega
    · obtain ⟨q, hq, _⟩ := (hv.beyond _ hge).construct_laid hf.schema
      rw [hq] at h
      cases h

theorem openPage_ok_not_full (hv : hf.Valid) {p : Page}
    (h : hf.openPage hf.pageCount = .ok p) : ¬ hf.Full := by
  obtain ⟨_, _, hend⟩ := hv.openPage_ok h
  unfold Full
  omega

/-- A pass that fails an assertion ends the loop otherwise. -/
theorem not_ends_of_error {p : Page} (hopen : hf.openPage hf.lastInsertPage = .ok p) {e : Fault}
    (h : tryInsertRecord p record txId firstRid = .error e) :
    ¬ InsertEnds hf record txId firstRid := by
  have hpass : hf.insertPass record txId firstRid = .error e := by
    simp only [insertPass, hopen, Outcome.ok_bind, h, Outcome.error_bind]
  rintro (⟨rid, hf', hrun, _⟩ | ⟨e', hf', hrun, hexc⟩)
  · rw [insertRecord_error hpass] at hrun
    cases hrun
  · rw [insertRecord_error hpass] at hrun
    cases hrun
    rw [(assertsBounds_tryInsertRecord ..).fault e h] at hexc
    cases hexc

/-- Neither stored nor thrown when the page after the last refuses too. -/
theorem not_ends_of_refused {p : Page} (hlast : hf.lastInsertPage = hf.pageCount)
    (hopen : hf.openPage hf.lastInsertPage = .ok p)
    (h : tryInsertRecord p record txId firstRid = .ok (none, p)) :
    ¬ InsertEnds hf record txId firstRid := by
  have hpasses : hf.pageCount - hf.lastInsertPage + 1 = 0 + 1 := by omega
  have hrun := @insertRecord_succ _ _ _ _ 0 _ (insertPass_refused hopen h)
  unfold InsertEnds
  rw [hpasses, hrun]
  rintro (⟨rid, hf', hnone, _⟩ | ⟨e, hf', herror, _⟩)
  · cases hnone
  · cases herror

/-- A page refuses, stores, or fails an assertion. -/
theorem Valid.tryInsertRecord_cases (hv : hf.Valid) {n : Nat} {p : Page}
    (hopen : hf.openPage n = .ok p) (hfits : InsertFits hf.schema record txId firstRid) :
    (∃ e, tryInsertRecord p record txId firstRid = .error e) ∨
      tryInsertRecord p record txId firstRid = .ok (none, p) ∨
      FitsFreshPage record ∧ ∃ rid q, tryInsertRecord p record txId firstRid = .ok (some rid, q) := by
  obtain ⟨hlaid, hid, hend⟩ := hv.openPage_ok hopen
  have hn : -2 ^ 31 ≤ p.pageId.pageNumber ∧ p.pageId.pageNumber < 2 ^ 31 := by
    rw [hid]
    constructor <;> omega
  cases h : tryInsertRecord p record txId firstRid with
  | error e => exact .inl ⟨e, rfl⟩
  | ok res =>
      obtain ⟨_ | rid, q⟩ := res
      · rcases hlaid.tryInsertRecord hfits hn h with ⟨_, rfl⟩ | ⟨hnone, _⟩
        · exact .inr (.inl rfl)
        · cases hnone
      · exact .inr (.inr ⟨fits_of_stored hlaid hfits hn h, rid, q, rfl⟩)

/-- The record finds a place, or the file cannot grow and has none. -/
def FindsEnd (hf : HeapFile) (record : Record) (txId : TxID) (firstRid : Option RID) : Prop :=
  FitsFreshPage record ∨ hf.Full ∧ ∀ n, hf.lastInsertPage ≤ n → n < hf.pageCount →
    hf.Refuses record txId firstRid n

/-- With no page of the file left to try. -/
theorem Valid.insertEnds_iff_last (hv : hf.Valid)
    (hfits : InsertFits hf.schema record txId firstRid) (hlast : hf.lastInsertPage = hf.pageCount) :
    InsertEnds hf record txId firstRid ↔ FindsEnd hf record txId firstRid := by
  cases hopen : hf.openPage hf.lastInsertPage with
  | error e =>
      obtain ⟨_, hfull, hexc⟩ := hv.openPage_error hopen
      have hpass : hf.insertPass record txId firstRid = .error e := by
        simp only [insertPass, hopen, Outcome.error_bind]
      refine ⟨fun _ => .inr ⟨hfull, fun n hlo hhi => ?_⟩, fun _ => ?_⟩
      · omega
      · exact .inr ⟨e, hf, insertRecord_error hpass, hexc⟩
  | ok p =>
      -- the file can grow, so the fresh page must take the record
      have hfresh : FindsEnd hf record txId firstRid →
          ∃ rid q, tryInsertRecord p record txId firstRid = .ok (some rid, q) := by
        rw [hlast] at hopen
        rintro (hfresh | ⟨hfull, _⟩)
        · exact hv.tryInsertRecord_fresh hopen hfits hfresh
        · exact absurd hfull (openPage_ok_not_full hv hopen)
      rcases hv.tryInsertRecord_cases hopen hfits with ⟨e, h⟩ | h | ⟨hfit, rid, q, h⟩
      · refine iff_of_false (not_ends_of_error hopen h) fun hend => ?_
        obtain ⟨rid, q, hyes⟩ := hfresh hend
        rw [h] at hyes
        cases hyes
      · refine iff_of_false (not_ends_of_refused hlast hopen h) fun hend => ?_
        obtain ⟨rid, q, hyes⟩ := hfresh hend
        rw [h] at hyes
        cases hyes
      · exact iff_of_true (hv.ends_of_stored hfits hopen h) (.inl hfit)

/-- A page of the file that refuses leaves the others. -/
theorem findsEnd_of_refused {p : Page} (hlt : hf.lastInsertPage < hf.pageCount)
    (hopen : hf.openPage hf.lastInsertPage = .ok p)
    (h : tryInsertRecord p record txId firstRid = .ok (none, p)) :
    FindsEnd hf record txId firstRid ↔
      FindsEnd { hf.setPage hf.lastInsertPage p with lastInsertPage := hf.lastInsertPage + 1 }
        record txId firstRid := by
  have hcount : max hf.pageCount (hf.lastInsertPage + 1) = hf.pageCount := by omega
  have hrefuses : ∀ n, hf.lastInsertPage < n →
      (Refuses { hf.setPage hf.lastInsertPage p with lastInsertPage := hf.lastInsertPage + 1 }
        record txId firstRid n ↔ hf.Refuses record txId firstRid n) := by
    intro n hn
    rw [Refuses, Refuses, openPage_refused hlt hn]
  have hfull : Full { hf.setPage hf.lastInsertPage p with
      lastInsertPage := hf.lastInsertPage + 1 } ↔ hf.Full := by
    show 2 ^ 31 ≤ 4096 * (max hf.pageCount (hf.lastInsertPage + 1) + 1) ↔ _
    rw [hcount]
    rfl
  refine or_congr Iff.rfl (and_congr hfull.symm ?_)
  constructor
  · intro hall n hlo hhi
    exact (hrefuses n hlo).mpr (hall n (Nat.le_of_succ_le hlo) (hhi.trans_eq hcount))
  · intro hall n hlo hhi
    rcases Nat.eq_or_lt_of_le hlo with heq | hlo'
    · exact heq ▸ ⟨p, hopen, h⟩
    · exact (hrefuses n hlo').mp (hall n hlo' (hhi.trans_eq hcount.symm))

/-- When one session's `insert_record` stores the record or throws, with at most one page more. -/
theorem insertEnds_iff (hv : hf.Valid) (hfits : InsertFits hf.schema record txId firstRid) :
    InsertEnds hf record txId firstRid ↔ FindsEnd hf record txId firstRid := by
  -- on the pages of the file that are left to try
  obtain ⟨left, hleft⟩ : ∃ left, hf.pageCount - hf.lastInsertPage = left := ⟨_, rfl⟩
  induction left generalizing hf with
  | zero =>
      have hlast := hv.last
      exact hv.insertEnds_iff_last hfits (by omega)
  | succ left ih =>
      have hlt : hf.lastInsertPage < hf.pageCount := by omega
      obtain ⟨p, hopen⟩ := hv.openPage_eq hlt
      rcases hv.tryInsertRecord_cases hopen hfits with ⟨e, h⟩ | h | ⟨hfit, rid, q, h⟩
      · refine iff_of_false (not_ends_of_error hopen h) ?_
        rintro (hfresh | ⟨_, hall⟩)
        · rcases hv.tryInsertRecord_of_fits hopen hfits hfresh with h' | ⟨_, _, h'⟩
          · rw [h] at h'
            cases h'
          · rw [h] at h'
            cases h'
        · obtain ⟨p', hopen', h'⟩ := hall _ (le_refl _) hlt
          rw [hopen] at hopen'
          cases hopen'
          rw [h] at h'
          cases h'
      · rw [ends_of_refused hlt hopen h, findsEnd_of_refused hlt hopen h]
        refine ih (hv.refused hopen) hfits ?_
        show max hf.pageCount (hf.lastInsertPage + 1) - (hf.lastInsertPage + 1) = left
        omega
      · exact iff_of_true (hv.ends_of_stored hfits hopen h) (.inl hfit)

theorem insertEnds_iff_oneColumn : InsertEnds (create oneColumn ⟨3⟩) ⟨[.int 7]⟩ 1 none :=
  (insertEnds_iff (create_valid oneColumn ⟨3⟩).1
    (insert_legal 7 (by norm_num [Value.Fits]) [])).mpr (.inl (by unfold FitsFreshPage; decide))

/-! ## A record no page takes -/

/-- Such a record, its size an `int32_t`, has a page appended for every pass beyond the file. -/
theorem insertRecord_appends (hv : hf.Valid) (hfits : InsertFits hf.schema record txId firstRid)
    (hbig : ¬ FitsFreshPage record) (hsize : valuesSize record.values + 36 < 2 ^ 31) (passes : Nat)
    (hroom : 4096 * (hf.lastInsertPage + passes) < 2 ^ 31) :
    ∃ hf', insertRecord record txId firstRid passes hf = (none, hf') ∧
      hf'.pageCount = max hf.pageCount (hf.lastInsertPage + passes) ∧ hf'.slot = hf.slot := by
  induction passes generalizing hf with
  | zero => exact ⟨hf, rfl, (max_eq_left hv.last).symm, rfl⟩
  | succ passes ih =>
      have hopen : ∃ p, hf.openPage hf.lastInsertPage = .ok p := by
        cases hopen : hf.openPage hf.lastInsertPage with
        | error e =>
            obtain ⟨hlast, hfull, _⟩ := hv.openPage_error hopen
            unfold Full at hfull
            omega
        | ok p => exact ⟨p, rfl⟩
      obtain ⟨p, hopen⟩ := hopen
      obtain ⟨hlaid, hid, hend⟩ := hv.openPage_ok hopen
      have hn : -2 ^ 31 ≤ p.pageId.pageNumber ∧ p.pageId.pageNumber < 2 ^ 31 := by
        rw [hid]
        constructor <;> omega
      have hrefuse : tryInsertRecord p record txId firstRid = .ok (none, p) := by
        obtain ⟨sp, hr, hcontents, hne⟩ := hlaid
        have hneed : RoomFits sp.slots.length sp.contents.firstFree record := by
          unfold valuesSize at hsize
          unfold RoomFits insertSize
          split <;> omega
        rcases tryInsertRecord_spec hr hfits hn hneed with ⟨_, hrefuse⟩ | ⟨q, _, _, hyes, _⟩
        · exact hrefuse
        · exact absurd (fits_of_stored ⟨sp, hr, hcontents, hne⟩ hfits hn hyes) hbig
      have hpass := insertPass_refused hopen hrefuse
      obtain ⟨_, _, ⟨_, hsame⟩ | ⟨rid, hsome, _⟩⟩ := hv.insertPass_ok hfits hpass
      · obtain ⟨hf', hrun, hcount, hslot⟩ := @ih _ (hv.refused hopen) hfits (by dsimp only; omega)
        refine ⟨hf', (insertRecord_succ hpass).trans hrun, ?_, hslot.trans hsame⟩
        rw [hcount]
        show max (max hf.pageCount (hf.lastInsertPage + 1)) (hf.lastInsertPage + 1 + passes) = _
        omega
      · cases hsome

/-- A row of 507 integers takes 4056 bytes. -/
theorem wideRecord_not_ends : ¬ ∀ (hf : HeapFile) (record : Record) (txId : TxID)
    (firstRid : Option RID), hf.Valid → InsertFits hf.schema record txId firstRid →
      InsertEnds hf record txId firstRid := by
  intro hall
  have hv := (create_valid (wideSchema 507) ⟨3⟩).1
  have hlegal := wideRecord_legal 507 []
  have hsize : valuesSize (wideRecord 507).values = 4056 := by
    rw [valuesSize, wideRecord, List.map_replicate, List.sum_replicate]
    rfl
  obtain ⟨hf', hrun, _⟩ := insertRecord_appends hv hlegal (by unfold FitsFreshPage; omega)
    (by omega) 1 (by norm_num [create])
  rcases hall _ _ _ _ hv hlegal with ⟨_, _, hstored, _⟩ | ⟨_, _, herror, _⟩
  · cases hrun.symm.trans hstored
  · cases hrun.symm.trans herror

end HeapFile

end Iic3413Db.Storage
