/-
  Storage/HeapFile/PageOperations.lean --- the writing functions of
  `HeapFilePage` keep a page representing a slotted page.

  Each lemma takes a represented page to the page the function returns, and says
  which slotted page that one represents.  The header writers change a segment of
  32 bytes in place; `try_insert_record` lays a tuple right below the lowest one.
-/
import Iic3413Db.Storage.HeapFile.PageAccess

set_option autoImplicit false

namespace Iic3413Db.Storage

open Iic3413Db.Foundation Iic3413Db.RelationalModel

/-- Fill slot `i`, which is in the directory or next after it. -/
def Contents.place (c : Contents) (i : Nat) (entry : Option (RecordHeader × List Value)) :
    Contents :=
  if i < c.length then c.set i entry else c ++ [entry]

/-- The slot the next insert takes: the first dead one, or a new one. -/
def Contents.firstFree (c : Contents) : Nat := c.findIdx Option.isNone

namespace SlottedPage

variable {schema : Schema}

theorem contents_firstFree (sp : SlottedPage schema) :
    sp.contents.firstFree = sp.slots.findIdx Option.isNone := by
  simp only [Contents.firstFree, contents, List.findIdx_map]
  congr 1
  funext slot
  cases slot <;> rfl

/-- Change the header of the tuple in slot `i`. -/
def setHeader (sp : SlottedPage schema) (i : Nat) (t : Tuple) (h : RecordHeader)
    (hi : sp.slots[i]? = some (some t)) (hfits : h.Fits) : SlottedPage schema :=
  sp.replace i (some { t with header := h }) (by
    intro t' ht'
    cases ht'
    exact ⟨⟨hfits, (sp.fits i t hi).values⟩, t, hi, rfl, rfl⟩)

@[simp] theorem setHeader_slots (sp : SlottedPage schema) (i : Nat) (t : Tuple)
    (h : RecordHeader) (hi : sp.slots[i]? = some (some t)) (hfits : h.Fits) :
    (sp.setHeader i t h hi hfits).slots = sp.slots.set i (some { t with header := h }) := rfl

theorem setHeader_contents (sp : SlottedPage schema) (i : Nat) (t : Tuple)
    (h : RecordHeader) (hi : sp.slots[i]? = some (some t)) (hfits : h.Fits) :
    (sp.setHeader i t h hi hfits).contents = sp.contents.set i (some (h, t.values)) := by
  simp [contents, List.map_set]

end SlottedPage

section Writing

variable {schema : Schema} {sp : SlottedPage schema} {p : Page}

/-! ## Headers -/

/-- Overwriting the segment `d₀` of a live tuple's header by `d` gives the tuple
the header that has `d` there. -/
theorem Represents.patchHeader (hr : Represents sp p) {i : Nat} {t : Tuple} (h : RecordHeader)
    (hi : sp.slots[i]? = some (some t)) (hfits : h.Fits) (pre d₀ d post : List UInt8)
    (hold : headerBytes t.header = pre ++ (d₀ ++ post)) (hnew : headerBytes h = pre ++ (d ++ post))
    (hlen : d.length = d₀.length) {a : Nat} (ha : a = t.offset + pre.length) :
    Represents (sp.setHeader i t h hi hfits) (p.patch a d) := by
  subst ha
  have hin := sp.inside i t hi
  have h32 : pre.length + (d₀.length + post.length) = 32 := by
    have hlength := congrArg List.length hold
    simpa using hlength.symm
  have hsize : t.size = 32 + (t.values.map HeapFilePage.valueSize).sum := rfl
  obtain ⟨hi_lt, _⟩ := List.getElem?_eq_some_iff.mp hi
  constructor
  case count =>
    rw [SlottedPage.setHeader_slots, List.length_set]
    exact hr.count.splice_of_disjoint (by simp only [intBytes_length]; omega)
  case free =>
    exact hr.free.splice_of_disjoint (by simp only [intBytes_length]; omega)
  case slot =>
    intro j slot hj
    rw [SlottedPage.setHeader_slots, List.getElem?_set] at hj
    split at hj
    · -- the slot itself: before, at and after the segment
      rename_i hij
      subst hij
      cases hj
      obtain ⟨hentry, hbytes⟩ := hr.slot i _ hi
      have hall : p.bytes.Holds t.offset (headerBytes t.header ++ payloadBytes t.values) := hbytes
      rw [hold] at hall
      simp only [Block.holds_append, List.length_append] at hall
      obtain ⟨⟨hpre, _, hpost⟩, hpayload⟩ := hall
      refine ⟨hentry.splice_of_disjoint (by simp only [intBytes_length]; omega), ?_⟩
      show (p.bytes.splice _ d).Holds t.offset (headerBytes h ++ payloadBytes t.values)
      rw [hnew]
      simp only [Block.holds_append, List.length_append, hlen]
      refine ⟨⟨hpre.splice_of_disjoint (by omega), Block.holds_splice_self (by omega),
        hpost.splice_of_disjoint (by omega)⟩, hpayload.splice_of_disjoint (by omega)⟩
    · rename_i hij
      obtain ⟨hj_lt, _⟩ := List.getElem?_eq_some_iff.mp hj
      refine (hr.slot j slot hj).splice (by omega) ?_
      intro u hu
      rw [hu] at hj
      have hdis := sp.disjoint i j t u hi hj hij
      omega

open HeapFilePage

theorem setTMax_spec (hr : Represents sp p) {i : Nat} {t : Tuple} {txId : TxID}
    (hi : sp.slots[i]? = some (some t)) (htx : txId < 2 ^ 64) :
    ∃ p', setTMax p i txId = .ok p' ∧ p'.pageId = p.pageId ∧
      Represents (sp.setHeader i t { t.header with tMax := txId } hi
        { (sp.fits i t hi).header with tMax := htx }) p' := by
  have hin := (sp.inside i t hi).2
  unfold Tuple.size at hin
  have hwrite : p.writeInt64 (t.offset + tMaxOffset) txId =
      .ok (p.patch (t.offset + 8) (intBytes 8 txId)) :=
    writeInt64_patch (by simp [tMaxOffset]) (by omega)
  refine ⟨p.patch (t.offset + 8) (intBytes 8 txId), ?_, rfl,
    hr.patchHeader _ hi _ (intBytes 8 t.header.tMin) (intBytes 8 t.header.tMax)
      (intBytes 8 txId) (ridBytes t.header.next ++ ridBytes t.header.first) rfl rfl (by simp)
      (by simp)⟩
  simp only [setTMax, getDir_live hr hi, Outcome.ok_bind, hwrite]

theorem setNextRID_spec (hr : Represents sp p) {i : Nat} {t : Tuple} {rid : RID}
    (hi : sp.slots[i]? = some (some t)) (hrid : rid.Fits) :
    ∃ p', setNextRID p i rid = .ok p' ∧ p'.pageId = p.pageId ∧
      Represents (sp.setHeader i t { t.header with next := rid } hi
        { (sp.fits i t hi).header with next := hrid }) p' := by
  have hin := (sp.inside i t hi).2
  unfold Tuple.size at hin
  have hpage : p.writeInt32 (t.offset + nextRidPageOffset) rid.pageNum =
      .ok (p.patch (t.offset + 16) (intBytes 4 rid.pageNum)) :=
    writeInt32_patch (by simp [nextRidPageOffset]) (by omega)
  have hdir : (p.patch (t.offset + 16) (intBytes 4 rid.pageNum)).writeInt32
      (t.offset + nextRidDirOffset) rid.dirSlot =
      .ok (p.patch (t.offset + 16) (ridBytes rid)) := by
    rw [writeInt32_patch (a := t.offset + 20) (by simp [nextRidDirOffset]) (by omega),
      Page.patch_append _ _ _ _ _ (by simp)]
    rfl
  refine ⟨p.patch (t.offset + 16) (ridBytes rid), ?_, rfl,
    hr.patchHeader _ hi _ (intBytes 8 t.header.tMin ++ intBytes 8 t.header.tMax)
      (ridBytes t.header.next) _ (ridBytes t.header.first) (by simp [headerBytes])
      (by simp [headerBytes]) (by simp) (by simp)⟩
  simp only [setNextRID, getDir_live hr hi, Outcome.ok_bind, hpage, hdir]

theorem setFirstRID_spec (hr : Represents sp p) {i : Nat} {t : Tuple} {rid : RID}
    (hi : sp.slots[i]? = some (some t)) (hrid : rid.Fits) :
    ∃ p', setFirstRID p i rid = .ok p' ∧ p'.pageId = p.pageId ∧
      Represents (sp.setHeader i t { t.header with first := rid } hi
        { (sp.fits i t hi).header with first := hrid }) p' := by
  have hin := (sp.inside i t hi).2
  unfold Tuple.size at hin
  have hpage : p.writeInt32 (t.offset + firstRidPageOffset) rid.pageNum =
      .ok (p.patch (t.offset + 24) (intBytes 4 rid.pageNum)) :=
    writeInt32_patch (by simp [firstRidPageOffset]) (by omega)
  have hdir : (p.patch (t.offset + 24) (intBytes 4 rid.pageNum)).writeInt32
      (t.offset + firstRidDirOffset) rid.dirSlot =
      .ok (p.patch (t.offset + 24) (ridBytes rid)) := by
    rw [writeInt32_patch (a := t.offset + 28) (by simp [firstRidDirOffset]) (by omega),
      Page.patch_append _ _ _ _ _ (by simp)]
    rfl
  refine ⟨p.patch (t.offset + 24) (ridBytes rid), ?_, rfl,
    hr.patchHeader _ hi _
      (intBytes 8 t.header.tMin ++ (intBytes 8 t.header.tMax ++ ridBytes t.header.next))
      (ridBytes t.header.first) _ [] (by simp [headerBytes]) (by simp [headerBytes]) (by simp)
      (by simp)⟩
  simp only [setFirstRID, getDir_live hr hi, Outcome.ok_bind, hpage, hdir]

/-! ## The operations on existing slots -/

/-- Set the second half of the header: the end of life and the next version. -/
theorem setTMax_setNextRID_spec (hr : Represents sp p) {i : Nat} {t : Tuple} (txId : TxID)
    (rid : RID) (hi : sp.slots[i]? = some (some t)) (htx : txId < 2 ^ 64) (hrid : rid.Fits) :
    ∃ (q p' : Page) (sp' : SlottedPage schema), setTMax p i txId = .ok q ∧
      setNextRID q i rid = .ok p' ∧ q.pageId = p.pageId ∧ p'.pageId = p.pageId ∧
      Represents sp' p' ∧
      sp'.contents =
        sp.contents.set i (some ({ t.header with tMax := txId, next := rid }, t.values)) := by
  obtain ⟨q, htmax, hqpage, hrq⟩ := setTMax_spec hr hi htx
  obtain ⟨hlt, _⟩ := List.getElem?_eq_some_iff.mp hi
  obtain ⟨p', hnext, hppage, hrp⟩ := setNextRID_spec hrq
    (i := i) (t := { t with header := { t.header with tMax := txId } })
    (by rw [SlottedPage.setHeader_slots, List.getElem?_set_self hlt]) hrid
  refine ⟨q, p', _, htmax, hnext, hqpage, hppage.trans hqpage, hrp, ?_⟩
  rw [SlottedPage.setHeader_contents, SlottedPage.setHeader_contents, List.set_set]

theorem deleteRecordLogically_spec (hr : Represents sp p) {i : Nat} {t : Tuple} {txId : TxID}
    (hi : sp.slots[i]? = some (some t)) (htx : txId < 2 ^ 64) :
    ∃ (p' : Page) (sp' : SlottedPage schema), deleteRecordLogically p i txId = .ok p' ∧
      p'.pageId = p.pageId ∧ Represents sp' p' ∧
      sp'.contents =
        sp.contents.set i (some ({ t.header with tMax := txId, next := .deleted }, t.values)) := by
  obtain ⟨q, p', sp', htmax, hnext, _, hpage, hrp, hcontents⟩ :=
    setTMax_setNextRID_spec hr txId .deleted hi htx (by simp [RID.Fits, RID.deleted])
  refine ⟨p', sp', ?_, hpage, hrp, hcontents⟩
  simp only [deleteRecordLogically, htmax, Outcome.ok_bind, hnext]

theorem updateRecordHeader_spec (hr : Represents sp p) {i : Nat} {t : Tuple} {txId : TxID}
    {rid : RID} (hi : sp.slots[i]? = some (some t)) (htx : txId < 2 ^ 64) (hrid : rid.Fits) :
    ∃ (p' : Page) (sp' : SlottedPage schema), updateRecordHeader p i rid txId = .ok p' ∧
      p'.pageId = p.pageId ∧ Represents sp' p' ∧
      sp'.contents =
        sp.contents.set i (some ({ t.header with tMax := txId, next := rid }, t.values)) := by
  obtain ⟨q, p', sp', htmax, hnext, _, hpage, hrp, hcontents⟩ :=
    setTMax_setNextRID_spec hr txId rid hi htx hrid
  refine ⟨p', sp', ?_, hpage, hrp, hcontents⟩
  simp only [updateRecordHeader, htmax, Outcome.ok_bind, hnext]

/-- The RID of a slot of this page is in range. -/
theorem self_fits {i : Nat} {slot : Option Tuple} (hi : sp.slots[i]? = some slot) {n : Int}
    (hn : -2 ^ 31 ≤ n ∧ n < 2 ^ 31) : (⟨n, i⟩ : RID).Fits := by
  have hle := sp.floor_le
  obtain ⟨hlt, _⟩ := List.getElem?_eq_some_iff.mp hi
  refine ⟨hn, ?_, ?_⟩ <;> dsimp only <;> omega

theorem resetUpdate_spec (hr : Represents sp p) {i : Nat} {t : Tuple}
    (hi : sp.slots[i]? = some (some t))
    (hn : -2 ^ 31 ≤ p.pageId.pageNumber ∧ p.pageId.pageNumber < 2 ^ 31) :
    ∃ (p' : Page) (sp' : SlottedPage schema), resetUpdate p i = .ok p' ∧
      p'.pageId = p.pageId ∧ Represents sp' p' ∧
      sp'.contents = sp.contents.set i
        (some ({ t.header with tMax := 0, next := ⟨p.pageId.pageNumber, i⟩ }, t.values)) := by
  obtain ⟨q, p', sp', htmax, hnext, hqpage, hpage, hrp, hcontents⟩ :=
    setTMax_setNextRID_spec hr 0 _ hi (by norm_num) (self_fits hi hn)
  refine ⟨p', sp', ?_, hpage, hrp, hcontents⟩
  rw [← hqpage] at hnext
  simp only [resetUpdate]
  rw [show setTMax p i 0 = .ok q from htmax, Outcome.ok_bind, hnext]

theorem resetFirst_spec (hr : Represents sp p) {i : Nat} {t : Tuple}
    (hi : sp.slots[i]? = some (some t))
    (hn : -2 ^ 31 ≤ p.pageId.pageNumber ∧ p.pageId.pageNumber < 2 ^ 31) :
    ∃ (p' : Page) (sp' : SlottedPage schema), resetFirst p i = .ok p' ∧
      p'.pageId = p.pageId ∧ Represents sp' p' ∧
      sp'.contents = sp.contents.set i
        (some ({ t.header with first := ⟨p.pageId.pageNumber, i⟩ }, t.values)) := by
  obtain ⟨p', hfirst, hpage, hrp⟩ := setFirstRID_spec hr hi (self_fits hi hn)
  exact ⟨p', _, hfirst, hpage, hrp, SlottedPage.setHeader_contents ..⟩

/-- Deleting physically overwrites the directory entry and nothing else. -/
theorem deleteRecordPhysically_spec (hr : Represents sp p) {i : Nat}
    (hi : i < sp.slots.length) :
    ∃ (p' : Page) (sp' : SlottedPage schema), deleteRecordPhysically p i = .ok p' ∧
      p'.pageId = p.pageId ∧ Represents sp' p' ∧ sp'.contents = sp.contents.set i none := by
  have hle := sp.floor_le
  have hwrite : setDir p i (-2) = .ok (p.patch (8 + 4 * i) (intBytes 4 (-2))) :=
    writeInt32_patch (by simp [headerSize, dirSize]) (by omega)
  refine ⟨_, sp.replace i none (fun _ h => by cases h), hwrite, rfl, ?_, ?_⟩
  · constructor
    case count =>
      show (p.bytes.splice _ _).Holds 0 (intBytes 4 ((sp.slots.set i none).length : Nat))
      rw [List.length_set]
      exact hr.count.splice_of_disjoint (by simp only [intBytes_length]; omega)
    case free => exact hr.free.splice_of_disjoint (by simp only [intBytes_length]; omega)
    case slot =>
      intro j slot hj
      change (sp.slots.set i none)[j]? = some slot at hj
      rw [List.getElem?_set] at hj
      split at hj
      · rename_i hij
        subst hij
        cases hj
        exact ⟨-2, by norm_num, Block.holds_splice_self (by simp only [intBytes_length]; omega)⟩
      · obtain ⟨hj_lt, _⟩ := List.getElem?_eq_some_iff.mp hj
        refine (hr.slot j slot hj).splice (by simp only [intBytes_length]; omega) ?_
        intro u hu
        rw [hu] at hj
        have hin := sp.inside j u hj
        simp only [intBytes_length]
        omega
  · simp [SlottedPage.contents, SlottedPage.replace, List.map_set]

/-! ## Inserting -/

/-- The `int32_t` loop computes the size of the data, wrapped. -/
theorem neededRecordSize_eq (values : List Value) :
    neededRecordSize values = int32 ((values.map valueSize).sum : Nat) := by
  have hfold : ∀ (vs : List Value) (a : Int),
      vs.foldl (fun size value => int32 (size + valueSize value)) (int32 a) =
        int32 (a + ((vs.map valueSize).sum : Nat)) := by
    intro vs
    induction vs with
    | nil => intro a; simp
    | cons v vs ih =>
        intro a
        have hwrap : int32 (int32 a + valueSize v) = int32 (a + valueSize v) :=
          Int.bmod_add_bmod
        rw [List.foldl_cons, hwrap, ih]
        simp [add_assoc]
  have hzero : int32 0 = 0 := rfl
  have h := hfold values 0
  rw [hzero, zero_add] at h
  exact h

/-- The room `record` needs in slot `k` of a directory of `slots` entries. -/
def insertSize (slots k : Nat) (record : Record) : Nat :=
  (record.values.map valueSize).sum + 32 + (if k < slots then 0 else 4)

/-- The room `record` needs in slot `k` is an `int32_t`. -/
def RoomFits (slots k : Nat) (record : Record) : Prop := insertSize slots k record < 2 ^ 31

/-- What every insert needs to know about its arguments. -/
structure InsertFits (schema : Schema) (record : Record) (txId : TxID) (firstRid : Option RID) :
    Prop where
  values : ∀ v ∈ record.values, v.Fits
  columns : Matches schema.columns record.stored
  txId : txId < 2 ^ 64
  firstRid : ∀ rid, firstRid = some rid → rid.Fits

/-- The page after the writes of an accepted insert into slot `k`: the counters,
the directory entry, the tuple. -/
theorem SlottedPage.represents_insert (sp : SlottedPage schema) {slots : List (Option Tuple)}
    {freeSpace k : Nat} {t : Tuple} {q : Page} (hfits : t.Fits schema)
    (hoff : t.offset = 8 + 4 * slots.length + freeSpace)
    (hsize : t.offset + t.size = sp.floor) (hk : slots[k]? = some (some t))
    (hslots : ∀ (i : Nat) (slot : Option Tuple), slots[i]? = some slot → i ≠ k →
      sp.slots[i]? = some slot)
    (hcount : q.bytes.Holds 0 (intBytes 4 slots.length))
    (hfree : q.bytes.Holds 4 (intBytes 4 freeSpace))
    (hold : ∀ (i : Nat) (slot : Option Tuple), sp.slots[i]? = some slot → SlotLaid q.bytes i slot) :
    ∃ sp' : SlottedPage schema, sp'.slots = slots ∧ sp'.freeSpace = freeSpace ∧
      Represents sp' ((q.patch (8 + 4 * k) (intBytes 4 t.offset)).patch t.offset t.bytes) := by
  obtain ⟨hk_lt, _⟩ := List.getElem?_eq_some_iff.mp hk
  have hle := sp.floor_le
  have hfloor : sp.floor = 8 + 4 * sp.slots.length + sp.freeSpace := rfl
  have hwhich : ∀ (i : Nat) (u : Tuple), slots[i]? = some (some u) →
      i = k ∧ u = t ∨ i ≠ k ∧ sp.slots[i]? = some (some u) := by
    intro i u hu
    by_cases hik : i = k
    · subst hik
      rw [hk] at hu
      cases hu
      exact .inl ⟨rfl, rfl⟩
    · exact .inr ⟨hik, hslots i _ hu hik⟩
  refine ⟨sp.insert slots freeSpace k t hfits hoff hsize hwhich, rfl, rfl, ?_, ?_, ?_⟩
  · refine Block.Holds.splice_of_disjoint (hcount.splice_of_disjoint ?_) ?_ <;>
      simp only [intBytes_length] <;> omega
  · refine Block.Holds.splice_of_disjoint (hfree.splice_of_disjoint ?_) ?_ <;>
      simp only [intBytes_length] <;> omega
  · intro i slot hi
    change slots[i]? = some slot at hi
    obtain ⟨hi_lt, _⟩ := List.getElem?_eq_some_iff.mp hi
    by_cases hik : i = k
    · subst hik
      rw [hk] at hi
      cases hi
      refine ⟨(Block.holds_splice_self ?_).splice_of_disjoint ?_, Block.holds_splice_self ?_⟩ <;>
        simp only [intBytes_length, Tuple.bytes_length] <;> omega
    · have hi_old := hslots i slot hi hik
      refine ((hold i slot hi_old).splice ?_ ?_).splice ?_ ?_
      · simp only [intBytes_length]
        omega
      · intro u hu
        rw [hu] at hi_old
        have hin := sp.inside i u hi_old
        simp only [intBytes_length]
        omega
      · omega
      · intro u hu
        rw [hu] at hi_old
        have hin := sp.inside i u hi_old
        simp only [Tuple.bytes_length]
        omega

/-- The header a record gets in slot `k` of page `n`. -/
def newHeader (n : Int) (k : Nat) (txId : TxID) (firstRid : Option RID) : RecordHeader :=
  ⟨txId, 0, ⟨n, k⟩, firstRid.getD ⟨n, k⟩⟩

theorem newHeader_fits {record : Record} {txId : TxID} {firstRid : Option RID} {n : Int} {k : Nat}
    (hfits : InsertFits schema record txId firstRid) (hn : -2 ^ 31 ≤ n ∧ n < 2 ^ 31)
    (hk : k < 4096) : (newHeader n k txId firstRid).Fits := by
  have hself : (⟨n, k⟩ : RID).Fits := ⟨hn, by dsimp only; omega, by dsimp only; omega⟩
  refine ⟨hfits.txId, by norm_num [newHeader], hself, ?_⟩
  cases hfirst : firstRid with
  | none => exact hself
  | some rid => exact hfits.firstRid rid hfirst

/-- Rewriting the counters of a page touches no slot. -/
theorem SlottedPage.slot_splice_counters (sp : SlottedPage schema) {bytes : PageBytes} {a : Nat}
    {d : List UInt8} (ha : a + d.length ≤ 8)
    (h : ∀ (i : Nat) (slot : Option Tuple), sp.slots[i]? = some slot → SlotLaid bytes i slot)
    (i : Nat) (slot : Option Tuple) (hi : sp.slots[i]? = some slot) :
    SlotLaid (bytes.splice a d) i slot := by
  refine (h i slot hi).splice (by omega) ?_
  intro u hu
  rw [hu] at hi
  have hin := sp.inside i u hi
  omega

/-- Writing the tuple at the floor of a page whose counters are already updated. -/
theorem writeTuple_represents (sp : SlottedPage schema) (q : Page) (k a : Nat)
    (slots : List (Option Tuple)) {freeSpace : Nat} {n : Int} {record : Record} {txId : TxID}
    {firstRid : Option RID} (hfits : InsertFits schema record txId firstRid) (hn : -2 ^ 31 ≤ n ∧ n < 2 ^ 31)
    (hq : q.pageId.pageNumber = n) (ha : a = 8 + 4 * slots.length + freeSpace)
    (hsize : a + 32 + (record.values.map valueSize).sum = sp.floor)
    (hk : slots[k]? = some (some ⟨a, newHeader n k txId firstRid, record.stored⟩))
    (hslots : ∀ (i : Nat) (slot : Option Tuple), slots[i]? = some slot → i ≠ k →
      sp.slots[i]? = some slot)
    (hcount : q.bytes.Holds 0 (intBytes 4 slots.length))
    (hfree : q.bytes.Holds 4 (intBytes 4 freeSpace))
    (hold : ∀ (i : Nat) (slot : Option Tuple), sp.slots[i]? = some slot → SlotLaid q.bytes i slot) :
    ∃ (p' : Page) (sp' : SlottedPage schema), writeTuple q record k a txId firstRid = .ok p' ∧
      p'.pageId = q.pageId ∧ Represents sp' p' ∧ sp'.slots = slots ∧
      sp'.freeSpace = freeSpace := by
  have hle := sp.floor_le
  have hfloor : sp.floor = 8 + 4 * sp.slots.length + sp.freeSpace := rfl
  obtain ⟨hk_lt, _⟩ := List.getElem?_eq_some_iff.mp hk
  have hlen : (payloadBytes record.values).length = (record.values.map valueSize).sum :=
    payloadBytes_length _
  -- the payload is that of the record without its RIDs
  have hbytes : (Tuple.mk a (newHeader n k txId firstRid) record.stored).bytes =
      headerBytes (newHeader n k txId firstRid) ++ payloadBytes record.values := by
    rw [Tuple.bytes, payloadBytes_stored]
  have hsize' : (Tuple.mk a (newHeader n k txId firstRid) record.stored).size =
      32 + (record.values.map valueSize).sum := by
    have h := congrArg List.length hbytes
    rwa [Tuple.bytes_length, List.length_append, headerBytes_length, hlen] at h
  obtain ⟨sp', hslots', hfree', hrep⟩ := sp.represents_insert (q := q)
    ⟨newHeader_fits hfits hn (by omega), hfits.columns⟩ ha
    (by rw [hsize']; dsimp only; omega) hk hslots hcount hfree hold
  have hwrite := writeTuple_eq q k a txId firstRid hfits.values (by omega)
    (by rw [hlen]; omega)
  rw [hq] at hwrite
  rw [hbytes] at hrep
  exact ⟨_, sp', hwrite, rfl, hrep, hslots', hfree'⟩

/-- `try_insert_record` refuses and leaves the page alone, or stores the record
in the first free slot as a first version or a later one. -/
theorem tryInsertRecord_spec (hr : Represents sp p) {record : Record} {txId : TxID}
    {firstRid : Option RID} (hfits : InsertFits schema record txId firstRid)
    (hn : -2 ^ 31 ≤ p.pageId.pageNumber ∧ p.pageId.pageNumber < 2 ^ 31)
    (hroom : RoomFits sp.slots.length sp.contents.firstFree record) :
    sp.freeSpace < insertSize sp.slots.length sp.contents.firstFree record ∧
      tryInsertRecord p record txId firstRid = .ok (none, p) ∨
    ∃ (p' : Page) (sp' : SlottedPage schema),
      sp.freeSpace = sp'.freeSpace + insertSize sp.slots.length sp.contents.firstFree record ∧
      tryInsertRecord p record txId firstRid =
        .ok (some ⟨p.pageId.pageNumber, sp.contents.firstFree⟩, p') ∧
      p'.pageId = p.pageId ∧ Represents sp' p' ∧
      sp'.contents = sp.contents.place sp.contents.firstFree
        (some (newHeader p.pageId.pageNumber sp.contents.firstFree txId firstRid,
          record.stored)) := by
  have hle := sp.floor_le
  have hfloor : sp.floor = 8 + 4 * sp.slots.length + sp.freeSpace := rfl
  have hk_le : sp.contents.firstFree ≤ sp.slots.length := by
    rw [sp.contents_firstFree]
    exact List.findIdx_le_length
  have hfind : findDirPos p sp.slots.length sp.slots.length 0 =
      .ok (sp.contents.firstFree : Int) := by
    have h := findDirPos_eq hr sp.slots.length 0 (by omega)
    simpa [sp.contents_firstFree] using h
  have hneeded : neededRecordSize record.values = (record.values.map valueSize).sum := by
    rw [neededRecordSize_eq]
    unfold RoomFits insertSize at hroom
    exact int32_of_range (by omega) (by split at hroom <;> omega)
  obtain ⟨payload, hpayload⟩ : ∃ n, (record.values.map valueSize).sum = n := ⟨_, rfl⟩
  obtain ⟨k, hk⟩ : ∃ k, sp.contents.firstFree = k := ⟨_, rfl⟩
  unfold RoomFits insertSize at hroom
  rw [hpayload] at hneeded hroom
  rw [hk] at hk_le hfind hroom ⊢
  rcases Nat.lt_or_ge k sp.slots.length with hreuse | hnew
  · -- found dir to reuse
    rw [if_pos hreuse] at hroom
    have hwant : int32 ((payload : Int) + tupleHeaderSize) = (payload + 32 : Nat) := by
      simp only [tupleHeaderSize]
      rw [int32_of_range (by omega) (by omega)]
      push_cast
      rfl
    have hinsert : insertSize sp.slots.length k record = payload + 32 := by
      rw [insertSize, hpayload, if_pos hreuse, add_zero]
    rcases Nat.lt_or_ge sp.freeSpace (payload + 32) with hfull | hroomy
    · left
      refine ⟨by rw [hinsert]; exact hfull, ?_⟩
      simp only [tryInsertRecord, getDirCount_eq hr, Outcome.ok_bind, Int.toNat_natCast, hfind,
        getFreeSpace_eq hr, hneeded, hwant]
      rw [if_pos (by exact_mod_cast hreuse), if_pos (by exact_mod_cast hfull)]
    · right
      obtain ⟨free', hfree'⟩ := Nat.exists_eq_add_of_le' hroomy
      have hfreeInt : int32 ((sp.freeSpace : Int) - (payload + 32 : Nat)) = free' := by
        rw [int32_of_range (by omega) (by omega)]
        omega
      have hoffInt : int32 (headerSize + dirSize * (sp.slots.length : Int) + free') =
          (8 + 4 * sp.slots.length + free' : Nat) := by
        simp only [headerSize, dirSize]
        rw [int32_of_range (by omega) (by omega)]
        push_cast
        ring
      have hset : setFreeSpace p free' = .ok (p.patch 4 (intBytes 4 free')) :=
        writeInt32_patch rfl (by omega)
      obtain ⟨p', sp', hwrite, hpage, hrep, hslots, hfree⟩ :=
        writeTuple_represents sp (p.patch 4 (intBytes 4 free')) k
          (8 + 4 * sp.slots.length + free')
          (sp.slots.set k (some ⟨8 + 4 * sp.slots.length + free',
            newHeader p.pageId.pageNumber k txId firstRid, record.stored⟩))
          hfits hn rfl (by rw [List.length_set]) (by rw [hpayload]; omega)
          (List.getElem?_set_self hreuse)
          (fun i slot hi hik => (List.getElem?_set_ne (Ne.symm hik)).symm.trans hi)
          (by
            rw [List.length_set]
            exact hr.count.splice_of_disjoint (by simp only [intBytes_length]; omega))
          (Block.holds_splice_self (by simp only [intBytes_length]; omega))
          (sp.slot_splice_counters (by simp) hr.slot)
      refine ⟨p', sp', by rw [hinsert, hfree]; exact hfree', ?_, hpage, hrep, ?_⟩
      · simp only [tryInsertRecord, getDirCount_eq hr, Outcome.ok_bind, Int.toNat_natCast, hfind,
          getFreeSpace_eq hr, hneeded, hwant]
        rw [if_pos (by exact_mod_cast hreuse), if_neg (by exact_mod_cast not_lt.mpr hroomy)]
        simp only [hfreeInt, hset, Outcome.ok_bind, hoffInt, hwrite, hpage, Page.patch_pageId]
      · rw [SlottedPage.contents, hslots, Contents.place, if_pos (by simpa using hreuse)]
        simp [SlottedPage.contents, List.map_set]
  · -- a new directory entry
    obtain rfl : k = sp.slots.length := le_antisymm hk_le hnew
    rw [if_neg (lt_irrefl _)] at hroom
    have hwant : int32 ((payload : Int) + tupleHeaderSize + dirSize) = (payload + 36 : Nat) := by
      simp only [tupleHeaderSize, dirSize]
      rw [int32_of_range (by omega) (by omega)]
      push_cast
      ring
    have hinsert : insertSize sp.slots.length sp.slots.length record = payload + 36 := by
      rw [insertSize, hpayload, if_neg (lt_irrefl _)]
    rcases Nat.lt_or_ge sp.freeSpace (payload + 36) with hfull | hroomy
    · left
      refine ⟨by rw [hinsert]; exact hfull, ?_⟩
      simp only [tryInsertRecord, getDirCount_eq hr, Outcome.ok_bind, Int.toNat_natCast, hfind,
        getFreeSpace_eq hr, hneeded, hwant]
      rw [if_neg (lt_irrefl _), if_pos (by exact_mod_cast hfull)]
    · right
      obtain ⟨free', hfree'⟩ := Nat.exists_eq_add_of_le' hroomy
      have hfreeInt : int32 ((sp.freeSpace : Int) - (payload + 36 : Nat)) = free' := by
        rw [int32_of_range (by omega) (by omega)]
        omega
      have hoffInt : int32 (headerSize + dirSize * ((sp.slots.length : Int) + 1) + free') =
          (8 + 4 * (sp.slots.length + 1) + free' : Nat) := by
        simp only [headerSize, dirSize]
        rw [int32_of_range (by omega) (by omega)]
        push_cast
        ring
      have hsetCount : setDirCount p ((sp.slots.length : Int) + 1) =
          .ok (p.patch 0 (intBytes 4 ((sp.slots.length : Int) + 1))) :=
        writeInt32_patch rfl (by omega)
      have hset : setFreeSpace (p.patch 0 (intBytes 4 ((sp.slots.length : Int) + 1))) free' =
          .ok ((p.patch 0 (intBytes 4 ((sp.slots.length : Int) + 1))).patch 4 (intBytes 4 free')) :=
        writeInt32_patch rfl (by omega)
      obtain ⟨p', sp', hwrite, hpage, hrep, hslots, hfree⟩ :=
        writeTuple_represents sp
          ((p.patch 0 (intBytes 4 ((sp.slots.length : Int) + 1))).patch 4 (intBytes 4 free'))
          sp.slots.length (8 + 4 * (sp.slots.length + 1) + free')
          (sp.slots ++ [some ⟨8 + 4 * (sp.slots.length + 1) + free',
            newHeader p.pageId.pageNumber sp.slots.length txId firstRid, record.stored⟩])
          hfits hn rfl (by simp) (by rw [hpayload]; omega) (by simp)
          (fun i slot hi hik => by
            obtain ⟨hlt, _⟩ := List.getElem?_eq_some_iff.mp hi
            rw [List.length_append, List.length_singleton] at hlt
            rwa [List.getElem?_append_left (by omega)] at hi)
          (by
            rw [List.length_append, List.length_singleton]
            push_cast
            exact (Block.holds_splice_self (by simp only [intBytes_length]; omega)).splice_of_disjoint
              (by simp only [intBytes_length]; omega))
          (Block.holds_splice_self (by simp only [intBytes_length]; omega))
          (sp.slot_splice_counters (by simp) (sp.slot_splice_counters (by simp) hr.slot))
      refine ⟨p', sp', by rw [hinsert, hfree]; exact hfree', ?_, hpage, hrep, ?_⟩
      · simp only [tryInsertRecord, getDirCount_eq hr, Outcome.ok_bind, Int.toNat_natCast, hfind,
          getFreeSpace_eq hr, hneeded, hwant]
        rw [if_neg (lt_irrefl _), if_neg (by exact_mod_cast not_lt.mpr hroomy)]
        simp only [hfreeInt, hsetCount, hset, Outcome.ok_bind, hoffInt, hwrite, hpage,
          Page.patch_pageId]
      · rw [SlottedPage.contents, hslots, Contents.place, if_neg (by simp)]
        simp [SlottedPage.contents]

end Writing

end Iic3413Db.Storage
