/-
  Storage/HeapFile/HeapFileSlots.lean --- a heap file as a map from RIDs to
  headers and values.

  `HeapFile.slot` reads the map off the bytes of the pages, and each function of
  `HeapFile` that touches one slot is computed from it.  Above this module no
  proof looks at a page.

  The sizes need no hypothesis: a record whose size wraps in `needed_record_size`
  is either refused or fails an assertion while it is written, and a file that
  cannot grow throws.
-/
import Iic3413Db.Storage.HeapFile.HeapFile
import Iic3413Db.Storage.HeapFile.PageRuns

set_option autoImplicit false

namespace Iic3413Db.Storage

open Iic3413Db.Foundation Iic3413Db.RelationalModel Iic3413Db.System

namespace HeapFilePage

/-- What the slots of a page read as. -/
def contents (schema : Schema) (page : Page) : Contents :=
  match getDirCount page with
  | .error _ => []
  | .ok count => (List.range count.toNat).map fun (i : Nat) =>
      match getRecordHeader page i, getRecord schema page i with
      | .ok (some header), .ok record => some (header, record.values)
      | _, _ => none

variable {schema : Schema} {sp : SlottedPage schema} {p q : Page}

theorem contents_eq (hr : Represents sp p) : contents schema p = sp.contents := by
  apply List.ext_getElem?
  intro i
  simp only [contents, getDirCount_eq hr, Int.toNat_natCast, SlottedPage.contents,
    List.getElem?_map]
  rcases Nat.lt_or_ge i sp.slots.length with hi | hi
  · rw [List.getElem?_range hi]
    cases hslot : sp.slots[i]? with
    | none => exact absurd (List.getElem?_eq_none_iff.mp hslot) (by omega)
    | some slot =>
        cases slot with
        | none => simp [getRecordHeader_dead hr hslot]
        | some t => simp [getRecordHeader_live hr hslot, getRecord_live hr hslot]
  · rw [List.getElem?_eq_none_iff.mpr (by simpa using hi), List.getElem?_eq_none_iff.mpr hi]
    rfl

/-- Data that was written lies inside the page. -/
theorem writeValues_ok_le : ∀ (vs : List Value) (off : Int) (p q : Page),
    (∀ v ∈ vs, v.Fits) → writeValues vs off p = .ok q → (vs.map valueSize).sum ≤ 4096 := by
  have hbound : ∀ (vs : List Value) (off : Int) (p q : Page), (∀ v ∈ vs, v.Fits) →
      writeValues vs off p = .ok q →
      (vs.map valueSize).sum = 0 ∨ 0 ≤ off ∧ off + ((vs.map valueSize).sum : Nat) ≤ 4096 := by
    intro vs
    induction vs with
    | nil => intro off p q _ _; exact .inl rfl
    | cons v vs ih =>
        intro off p q hfits h
        have hrest : ∀ v ∈ vs, v.Fits := fun v hv => hfits v (List.mem_cons_of_mem _ hv)
        cases v with
        | rid r => simpa [valueSize] using ih off p q hrest h
        | int i =>
            right
            simp only [writeValues] at h
            cases hw : p.writeInt64 off i with
            | error e => simp [hw] at h
            | ok p₁ =>
                simp only [hw, Outcome.ok_bind] at h
                obtain ⟨⟨hlo, hhi⟩, _⟩ := Page.write_ok_iff.mp hw
                simp only [intBytes_length, Page.size] at hhi
                simp only [List.map_cons, valueSize, List.sum_cons]
                rcases ih (off + 8) p₁ q hrest h with hz | ⟨_, hle⟩ <;> omega
        | string s =>
            right
            have hlen : s.length ≤ 255 := hfits _ List.mem_cons_self
            have hmod : s.length % 256 = s.length := Nat.mod_eq_of_lt (by omega)
            simp only [writeValues, hmod, List.take_length] at h
            cases hw : p.writeInt8 off s.length with
            | error e => simp [hw] at h
            | ok p₁ =>
                simp only [hw, Outcome.ok_bind] at h
                cases hw' : p₁.write (off + 1) s with
                | error e => simp [hw'] at h
                | ok p₂ =>
                    simp only [hw', Outcome.ok_bind] at h
                    obtain ⟨⟨hlo, _⟩, _⟩ := Page.write_ok_iff.mp hw
                    obtain ⟨⟨_, hhi⟩, _⟩ := Page.write_ok_iff.mp hw'
                    simp only [Page.size] at hhi
                    simp only [List.map_cons, valueSize, List.sum_cons]
                    rcases ih (off + 1 + s.length) p₂ q hrest h with hz | ⟨_, hle⟩ <;> omega
  intro vs off p q hfits h
  rcases hbound vs off p q hfits h with hz | ⟨_, hle⟩ <;> omega

theorem writeTuple_ok_le {record : Record} {dirPos offset : Int} {txId : TxID}
    {firstRid : Option RID} (hfits : ∀ v ∈ record.values, v.Fits)
    (h : writeTuple p record dirPos offset txId firstRid = .ok q) :
    (record.values.map valueSize).sum ≤ 4096 := by
  -- peel the eight writes before the data
  have hpeel : ∀ {α β : Type} {x : Outcome α} {f : α → Outcome β} {b : β},
      x >>= f = .ok b → ∃ a, f a = .ok b := by
    intro α β x f b hx
    cases x with
    | error e => simp at hx
    | ok a => exact ⟨a, by simpa using hx⟩
  unfold writeTuple at h
  obtain ⟨_, h⟩ := hpeel h
  obtain ⟨_, h⟩ := hpeel h
  obtain ⟨_, h⟩ := hpeel h
  obtain ⟨_, h⟩ := hpeel h
  obtain ⟨_, h⟩ := hpeel h
  obtain ⟨_, h⟩ := hpeel h
  obtain ⟨_, h⟩ := hpeel h
  exact writeValues_ok_le _ _ _ _ hfits h

/-- An insert that returns left the page alone, or wrote a record whose size did
not wrap. -/
theorem tryInsertRecord_ok {record : Record} {txId : TxID} {firstRid res : Option RID}
    (hfits : ∀ v ∈ record.values, v.Fits)
    (h : tryInsertRecord p record txId firstRid = .ok (res, q)) :
    res = none ∧ q = p ∨ (record.values.map valueSize).sum ≤ 4096 := by
  unfold tryInsertRecord at h
  cases hc : getDirCount p with
  | error e => simp [hc] at h
  | ok dirCount =>
      simp only [hc, Outcome.ok_bind] at h
      cases hd : findDirPos p dirCount dirCount.toNat 0 with
      | error e => simp [hd] at h
      | ok dirPos =>
          simp only [hd, Outcome.ok_bind] at h
          cases hf : getFreeSpace p with
          | error e => simp [hf] at h
          | ok freeSpace =>
              simp only [hf, Outcome.ok_bind] at h
              -- both ways to a write end in `writeTuple`
              have hwrite : ∀ {page : Page} {off : Int} {rid : Page → RID},
                  (do
                    let page ← writeTuple page record dirPos off txId firstRid
                    .ok (some (rid page), page) : Outcome (Option RID × Page)) = .ok (res, q) →
                  (record.values.map valueSize).sum ≤ 4096 := by
                intro page off rid hw
                cases ht : writeTuple page record dirPos off txId firstRid with
                | error e => simp [ht] at hw
                | ok page' => exact writeTuple_ok_le hfits ht
              split at h
              · split at h
                · simp only [Except.ok.injEq, Prod.mk.injEq] at h
                  exact .inl ⟨h.1.symm, h.2.symm⟩
                · right
                  cases hs : setFreeSpace p (int32 (freeSpace -
                      int32 (neededRecordSize record.values + tupleHeaderSize))) with
                  | error e => simp [hs] at h
                  | ok page =>
                      simp only [hs, Outcome.ok_bind] at h
                      exact hwrite h
              · split at h
                · simp only [Except.ok.injEq, Prod.mk.injEq] at h
                  exact .inl ⟨h.1.symm, h.2.symm⟩
                · right
                  cases hs : setDirCount p (dirCount + 1) with
                  | error e => simp [hs] at h
                  | ok page =>
                      simp only [hs, Outcome.ok_bind] at h
                      cases hs' : setFreeSpace page (int32 (freeSpace -
                          int32 (neededRecordSize record.values + tupleHeaderSize + dirSize))) with
                      | error e => simp [hs'] at h
                      | ok page' =>
                          simp only [hs', Outcome.ok_bind] at h
                          exact hwrite h

/-! ## Opening a page -/

/-- The page lays out slots, and it is not one the constructor would reset. -/
def Laid (schema : Schema) (p : Page) (cs : Contents) : Prop :=
  ∃ sp : SlottedPage schema, Represents sp p ∧ sp.contents = cs ∧
    (sp.slots = [] → sp.freeSpace ≠ 0)

/-- A page `get_page` has just added to the file. -/
def Blank (p : Page) : Prop := p.bytes = fun _ => 0

theorem Laid.contents_eq {cs : Contents} (h : Laid schema p cs) : contents schema p = cs := by
  obtain ⟨sp, hr, rfl, _⟩ := h
  exact HeapFilePage.contents_eq hr

theorem Blank.contents_eq (h : Blank p) : contents schema p = [] := by
  obtain ⟨n, bytes, pins, chance, dirty⟩ := p
  obtain rfl : bytes = fun _ => 0 := h
  have hcount := readInt32_of_holds (a := 0) (o := 0) rfl (holds_zero n 0 pins chance dirty)
    (by omega) (by omega)
  have hdir : getDirCount ⟨n, fun _ => 0, pins, chance, dirty⟩ = .ok 0 := hcount
  simp only [contents, hdir, Int.toNat_zero, List.range_zero, List.map_nil]

theorem Laid.construct_eq {cs : Contents} (h : Laid schema p cs) : construct p = .ok p := by
  obtain ⟨sp, hr, _, hopen⟩ := h
  simp only [construct, getDirCount_eq hr, Outcome.ok_bind]
  split
  · rename_i hzero
    have hnil : sp.slots = [] := List.length_eq_zero_iff.mp (by exact_mod_cast hzero)
    simp only [getFreeSpace_eq hr, Outcome.ok_bind]
    rw [if_neg (by exact_mod_cast hopen hnil)]
  · rfl

/-- The constructor makes a page of zeros one without slots. -/
theorem Blank.construct_eq (h : Blank p) (schema : Schema) :
    ∃ (q : Page) (sp : SlottedPage schema), construct p = .ok q ∧ q.pageId = p.pageId ∧
      Represents sp q ∧ sp.slots = [] ∧ sp.freeSpace = 4088 := by
  refine ⟨_, ⟨[], 4088, by decide, fun i t h => ?_, fun i j t u h => ?_, fun i t h => ?_⟩,
    construct_zero h, rfl, ⟨?_, ?_, fun i slot h => ?_⟩, rfl, rfl⟩
  · cases h
  · cases h
  · cases h
  · obtain ⟨n, bytes, pins, chance, dirty⟩ := p
    obtain rfl : bytes = fun _ => 0 := h
    exact (holds_zero n 0 pins chance dirty).splice_of_disjoint (by simp)
  · exact Block.holds_splice_self (by simp)
  · cases h

theorem Blank.construct_laid (h : Blank p) (schema : Schema) :
    ∃ q, construct p = .ok q ∧ q.pageId = p.pageId ∧ Laid schema q [] := by
  obtain ⟨q, sp, hq, hid, hr, hslots, hfree⟩ := h.construct_eq schema
  refine ⟨q, hq, hid, sp, hr, ?_, fun _ => by rw [hfree]; norm_num⟩
  rw [SlottedPage.contents, hslots]
  rfl

/-- What is at a place of the directory. -/
theorem Laid.header {cs : Contents} (h : Laid schema p cs) {i : Nat} {header : RecordHeader}
    {vs : List Value} (hi : cs[i]? = some (some (header, vs))) :
    getRecordHeader p i = .ok (some header) ∧ getRecord schema p i = .ok ⟨vs⟩ := by
  obtain ⟨sp, hr, rfl, _⟩ := h
  obtain ⟨t, ht, rfl, rfl⟩ := SlottedPage.contents_live hi
  exact ⟨getRecordHeader_live hr ht, getRecord_live hr ht⟩

theorem Laid.header_dead {cs : Contents} (h : Laid schema p cs) {i : Nat}
    (hi : cs[i]? = some none) : getRecordHeader p i = .ok none := by
  obtain ⟨sp, hr, rfl, _⟩ := h
  exact getRecordHeader_dead hr (SlottedPage.contents_dead hi)

theorem Laid.getDirCount_eq {cs : Contents} (h : Laid schema p cs) :
    getDirCount p = .ok cs.length := by
  obtain ⟨sp, hr, rfl, _⟩ := h
  rw [HeapFilePage.getDirCount_eq hr, sp.contents_length]

theorem Laid.length_lt {cs : Contents} (h : Laid schema p cs) : cs.length < 1024 := by
  obtain ⟨sp, _, rfl, _⟩ := h
  have hle := sp.floor_le
  rw [sp.contents_length]
  omega

/-- An insert that returns refused, or put the record in the first free slot. -/
theorem Laid.tryInsertRecord {cs : Contents} (h : Laid schema p cs) {record : Record}
    {txId : TxID} {firstRid res : Option RID} (hfits : InsertFits schema record txId firstRid)
    (hn : -2 ^ 31 ≤ p.pageId.pageNumber ∧ p.pageId.pageNumber < 2 ^ 31)
    (hins : tryInsertRecord p record txId firstRid = .ok (res, q)) :
    res = none ∧ q = p ∨
    res = some ⟨p.pageId.pageNumber, cs.firstFree⟩ ∧ q.pageId = p.pageId ∧
      Laid schema q (cs.place cs.firstFree
        (some (newHeader p.pageId.pageNumber cs.firstFree txId firstRid, record.stored))) := by
  rcases tryInsertRecord_ok hfits.values hins with hno | hsmall
  · exact .inl hno
  · obtain ⟨sp, hr, rfl, _⟩ := h
    have hroom : RoomFits sp.slots.length sp.contents.firstFree record := by
      unfold RoomFits insertSize
      split <;> omega
    rcases tryInsertRecord_spec hr hfits hn hroom with
      ⟨_, hno⟩ | ⟨p', sp', _, hyes, hpage, hrep, hcontents⟩
    · rw [hno] at hins
      cases hins
      exact .inl ⟨rfl, rfl⟩
    · rw [hyes] at hins
      cases hins
      refine .inr ⟨rfl, hpage, sp', hrep, hcontents, fun hnil => ?_⟩
      -- a page with a record in it has a slot
      have hlen : sp'.contents.length = 0 := by rw [sp'.contents_length, hnil]; rfl
      rw [hcontents, Contents.place] at hlen
      split at hlen
      · rename_i hlt
        rw [List.length_set] at hlen
        omega
      · simp at hlen

/-- Updating the header of a live slot. -/
theorem Laid.updateRecordHeader {cs : Contents} (h : Laid schema p cs) {i : Nat}
    {header : RecordHeader} {vs : List Value} {txId : TxID} {rid : RID}
    (hi : cs[i]? = some (some (header, vs))) (htx : txId < 2 ^ 64) (hrid : rid.Fits) :
    ∃ q, updateRecordHeader p i rid txId = .ok q ∧ q.pageId = p.pageId ∧
      Laid schema q (cs.set i (some ({ header with tMax := txId, next := rid }, vs))) := by
  obtain ⟨sp, hr, rfl, _⟩ := h
  obtain ⟨t, ht, rfl, rfl⟩ := SlottedPage.contents_live hi
  obtain ⟨q, sp', hupdate, hpage, hrep, hcontents⟩ := updateRecordHeader_spec hr ht htx hrid
  refine ⟨q, hupdate, hpage, sp', hrep, hcontents, fun hnil => ?_⟩
  have hlen : sp'.contents.length = 0 := by rw [sp'.contents_length, hnil]; rfl
  obtain ⟨hlt, _⟩ := List.getElem?_eq_some_iff.mp hi
  rw [hcontents, List.length_set] at hlen
  omega

end HeapFilePage

namespace HeapFile

open HeapFilePage

/-! ## The slots of a file -/

/-- What the slots of page `n` read as. -/
def contentsOf (hf : HeapFile) (n : Nat) : Contents := contents hf.schema (hf.pages n)

/-- What is stored at a RID: a header and values, or nothing. -/
def slot (hf : HeapFile) (rid : RID) : Option (RecordHeader × List Value) :=
  if 0 ≤ rid.pageNum ∧ 0 ≤ rid.dirSlot then
    ((hf.contentsOf rid.pageNum.toNat)[rid.dirSlot.toNat]?).join
  else none

/-- The invariant of a heap file. -/
structure Valid (hf : HeapFile) : Prop where
  number : ∀ n, (hf.pages n).pageId.pageNumber = n
  bound : 4096 * hf.pageCount < 2 ^ 31
  last : hf.lastInsertPage ≤ hf.pageCount
  page : ∀ n, Blank (hf.pages n) ∨ ∃ cs, Laid hf.schema (hf.pages n) cs
  beyond : ∀ n, hf.pageCount ≤ n → Blank (hf.pages n)

variable {hf hf' : HeapFile}

@[simp] theorem slot_nat (hf : HeapFile) (n i : Nat) :
    hf.slot ⟨n, i⟩ = ((hf.contentsOf n)[i]?).join := by
  simp [slot]

/-- RIDs with something stored are made of natural numbers. -/
theorem exists_nat_of_slot {rid : RID} {e : RecordHeader × List Value}
    (h : hf.slot rid = some e) :
    ∃ n i : Nat, rid = ⟨n, i⟩ ∧ (hf.contentsOf n)[i]? = some (some e) := by
  obtain ⟨n, i⟩ := rid
  unfold slot at h
  split at h
  · rename_i hpos
    refine ⟨n.toNat, i.toNat, ?_, Option.join_eq_some_iff.mp h⟩
    rw [Int.toNat_of_nonneg hpos.1, Int.toNat_of_nonneg hpos.2]
  · cases h

theorem slot_ext (h : ∀ n i : Nat, hf'.slot ⟨n, i⟩ = hf.slot ⟨n, i⟩) : hf'.slot = hf.slot := by
  funext rid
  obtain ⟨n, i⟩ := rid
  by_cases hpos : 0 ≤ n ∧ 0 ≤ i
  · rw [← Int.toNat_of_nonneg hpos.1, ← Int.toNat_of_nonneg hpos.2]
    exact h _ _
  · rw [slot, slot, if_neg hpos, if_neg hpos]

/-- The slots are read off the pages. -/
theorem slot_congr (hschema : hf'.schema = hf.schema) (hpages : hf'.pages = hf.pages) :
    hf'.slot = hf.slot := by
  refine slot_ext fun n i => ?_
  rw [slot_nat, slot_nat, contentsOf, contentsOf, hschema, hpages]

/-- A page that opens lays out the contents of its number, and its last byte has
an `int` offset. -/
theorem Valid.openPage_ok (hv : hf.Valid) {n : Nat} {p : Page} (h : hf.openPage n = .ok p) :
    Laid hf.schema p (hf.contentsOf n) ∧ p.pageId.pageNumber = n ∧ 4096 * (n + 1) < 2 ^ 31 := by
  unfold openPage at h
  rw [if_neg (by omega)] at h
  split at h
  · cases h
  · rename_i hroom
    have hbound := hv.bound
    rw [Int.toNat_natCast] at h
    refine ⟨?_, ?_, by omega⟩
    · rcases hv.page n with hblank | ⟨cs, hlaid⟩
      · obtain ⟨q, hq, _, hlaid⟩ := hblank.construct_laid hf.schema
        rw [hq] at h
        cases h
        rw [contentsOf, hblank.contents_eq]
        exact hlaid
      · rw [hlaid.construct_eq] at h
        cases h
        rw [contentsOf, hlaid.contents_eq]
        exact hlaid
    · rcases hv.page n with hblank | ⟨cs, hlaid⟩
      · obtain ⟨q, hq, hid, _⟩ := hblank.construct_laid hf.schema
        rw [hq] at h
        cases h
        rw [hid, hv.number]
      · rw [hlaid.construct_eq] at h
        cases h
        exact hv.number n

/-- The pages of the file open. -/
theorem Valid.openPage_eq (hv : hf.Valid) {n : Nat} (hn : n < hf.pageCount) :
    ∃ p, hf.openPage n = .ok p := by
  unfold openPage
  rw [if_neg (by omega), if_neg (by omega), Int.toNat_natCast]
  rcases hv.page n with hblank | ⟨cs, hlaid⟩
  · obtain ⟨q, hq, _⟩ := hblank.construct_laid hf.schema
    exact ⟨q, hq⟩
  · exact ⟨_, hlaid.construct_eq⟩

/-- What is stored is in the file. -/
theorem Valid.lt_pageCount (hv : hf.Valid) {n i : Nat} {e : Option (RecordHeader × List Value)}
    (h : (hf.contentsOf n)[i]? = some e) : n < hf.pageCount := by
  by_contra hge
  rw [contentsOf, (hv.beyond n (by omega)).contents_eq] at h
  cases h

/-- A RID with something stored has halves of 32 bits. -/
theorem Valid.rid_fits (hv : hf.Valid) {rid : RID} {e : RecordHeader × List Value}
    (h : hf.slot rid = some e) : rid.Fits := by
  obtain ⟨n, i, rfl, hi⟩ := exists_nat_of_slot h
  have hn := hv.lt_pageCount hi
  obtain ⟨p, hp⟩ := hv.openPage_eq hn
  obtain ⟨hlaid, _, hend⟩ := hv.openPage_ok hp
  have hlen := hlaid.length_lt
  obtain ⟨hlt, _⟩ := List.getElem?_eq_some_iff.mp hi
  refine ⟨⟨?_, ?_⟩, ?_, ?_⟩ <;> dsimp only <;> omega

/-! ## Reading a slot -/

theorem Valid.getRecordHeader_eq (hv : hf.Valid) {rid : RID} {header : RecordHeader}
    {vs : List Value} (h : hf.slot rid = some (header, vs)) :
    hf.getRecordHeader rid = .ok (some header) := by
  obtain ⟨n, i, rfl, hi⟩ := exists_nat_of_slot h
  obtain ⟨p, hp⟩ := hv.openPage_eq (hv.lt_pageCount hi)
  have hgone : (⟨n, i⟩ : RID) ≠ .gone := by simp [RID.gone]
  simp only [getRecordHeader, if_neg hgone, hp, Outcome.ok_bind]
  exact ((hv.openPage_ok hp).1.header hi).1

theorem Valid.getRecord_eq (hv : hf.Valid) {rid : RID} {header : RecordHeader}
    {vs : List Value} (h : hf.slot rid = some (header, vs)) : hf.getRecord rid = .ok ⟨vs⟩ := by
  obtain ⟨n, i, rfl, hi⟩ := exists_nat_of_slot h
  obtain ⟨p, hp⟩ := hv.openPage_eq (hv.lt_pageCount hi)
  simp only [getRecord, hp, Outcome.ok_bind]
  exact ((hv.openPage_ok hp).1.header hi).2

/-- A slot of the directory with nothing stored is read as invalid. -/
theorem Valid.getRecordHeader_dead (hv : hf.Valid) {n i : Nat}
    (h : (hf.contentsOf n)[i]? = some none) : hf.getRecordHeader ⟨n, i⟩ = .ok none := by
  obtain ⟨p, hp⟩ := hv.openPage_eq (hv.lt_pageCount h)
  have hgone : (⟨n, i⟩ : RID) ≠ .gone := by simp [RID.gone]
  simp only [getRecordHeader, if_neg hgone, hp, Outcome.ok_bind]
  exact (hv.openPage_ok hp).1.header_dead h

/-- `get_last_version` at a slot: one step. -/
theorem Valid.getLastVersion_succ (hv : hf.Valid) {rid : RID} {header : RecordHeader}
    {vs : List Value} (h : hf.slot rid = some (header, vs)) (fuel : Nat) :
    hf.getLastVersion (fuel + 1) rid =
      if header.tMax = 0 then .ok (some rid)
      else if header.next = .deleted then .ok (some rid)
      else hf.getLastVersion fuel header.next := by
  obtain ⟨n, i, rfl, hi⟩ := exists_nat_of_slot h
  obtain ⟨p, hp⟩ := hv.openPage_eq (hv.lt_pageCount hi)
  have hheader := ((hv.openPage_ok hp).1.header hi).1
  simp only [getLastVersion, hp, Outcome.ok_bind, hheader]

/-! ## Writing a page back -/

theorem Valid.setPage (hv : hf.Valid) {n : Nat} {p : Page} {cs : Contents}
    (hlaid : Laid hf.schema p cs) (hid : p.pageId.pageNumber = n)
    (hend : 4096 * (n + 1) < 2 ^ 31) : (hf.setPage n p).Valid := by
  have hbound := hv.bound
  have hlast := hv.last
  refine ⟨fun m => ?_, ?_, ?_, fun m => ?_, fun m hm => ?_⟩
  · by_cases hm : m = n
    · subst hm
      simp [HeapFile.setPage, hid]
    · simpa [HeapFile.setPage, hm] using hv.number m
  · show 4096 * max hf.pageCount (n + 1) < 2 ^ 31
    omega
  · show hf.lastInsertPage ≤ max hf.pageCount (n + 1)
    omega
  · by_cases hm : m = n
    · subst hm
      exact .inr ⟨cs, by simpa [HeapFile.setPage] using hlaid⟩
    · simpa [HeapFile.setPage, hm] using hv.page m
  · change max hf.pageCount (n + 1) ≤ m at hm
    have hne : m ≠ n := by omega
    simpa [HeapFile.setPage, hne] using hv.beyond m (by omega)

/-- `last_insert_page` may move to the page after the last. -/
theorem Valid.advance (hv : hf.Valid) {n : Nat} (hn : n ≤ hf.pageCount) :
    ({ hf with lastInsertPage := n } : HeapFile).Valid where
  number := hv.number
  bound := hv.bound
  last := hn
  page := hv.page
  beyond := hv.beyond

theorem setPage_contentsOf {n : Nat} {p : Page} {cs : Contents} (hlaid : Laid hf.schema p cs)
    (m : Nat) : (hf.setPage n p).contentsOf m = if m = n then cs else hf.contentsOf m := by
  by_cases hm : m = n
  · subst hm
    simp only [contentsOf, setPage, Function.update_self, if_true]
    exact hlaid.contents_eq
  · simp [contentsOf, setPage, hm]

/-- Writing a page back with the contents it had changes no slot. -/
theorem setPage_slot_same {n : Nat} {p : Page} (hlaid : Laid hf.schema p (hf.contentsOf n)) :
    (hf.setPage n p).slot = hf.slot := by
  refine slot_ext fun m i => ?_
  rw [slot_nat, slot_nat, setPage_contentsOf hlaid]
  split
  · rename_i hm
    rw [hm]
  · rfl

/-- Writing back a page whose slot `i` alone has changed. -/
theorem setPage_slot_update {n i : Nat} {p : Page} {cs : Contents}
    {e : RecordHeader × List Value} (hlaid : Laid hf.schema p cs) (hi : cs[i]? = some (some e))
    (hother : ∀ j, j ≠ i → cs[j]?.join = (hf.contentsOf n)[j]?.join) :
    (hf.setPage n p).slot = Function.update hf.slot ⟨n, i⟩ (some e) := by
  funext rid
  obtain ⟨m, j⟩ := rid
  by_cases hpos : 0 ≤ m ∧ 0 ≤ j
  · obtain ⟨m, rfl⟩ := Int.eq_ofNat_of_zero_le hpos.1
    obtain ⟨j, rfl⟩ := Int.eq_ofNat_of_zero_le hpos.2
    rw [slot_nat, setPage_contentsOf hlaid]
    by_cases hm : m = n
    · subst hm
      by_cases hj : j = i
      · subst hj
        simp [hi]
      · rw [Function.update_of_ne (by simpa using hj), slot_nat]
        simpa using hother j hj
    · rw [Function.update_of_ne (by simp [hm]), slot_nat]
      simp [hm]
  · have hne : (⟨m, j⟩ : RID) ≠ ⟨n, i⟩ := by
      rintro heq
      cases heq
      exact hpos ⟨by omega, by omega⟩
    rw [Function.update_of_ne hne, slot, slot, if_neg hpos, if_neg hpos]

/-! ## The operations -/

/-- A pass of `insert_record` that returns keeps the file valid; it stored the
record in an empty slot, or changed no slot. -/
theorem Valid.insertPass_ok (hv : hf.Valid) {record : Record} {txId : TxID}
    {firstRid res : Option RID} (hfits : InsertFits hf.schema record txId firstRid)
    (h : hf.insertPass record txId firstRid = .ok (res, hf')) :
    hf'.Valid ∧ hf'.schema = hf.schema ∧
      (res = none ∧ hf'.slot = hf.slot ∨
        ∃ rid, res = some rid ∧ hf.slot rid = none ∧
          hf'.slot = Function.update hf.slot rid
            (some (⟨txId, 0, rid, firstRid.getD rid⟩, record.stored))) := by
  unfold insertPass at h
  cases hp : hf.openPage hf.lastInsertPage with
  | error e => simp [hp] at h
  | ok p =>
      simp only [hp, Outcome.ok_bind] at h
      obtain ⟨hlaid, hid, hend⟩ := hv.openPage_ok hp
      have hn : -2 ^ 31 ≤ p.pageId.pageNumber ∧ p.pageId.pageNumber < 2 ^ 31 := by
        rw [hid]
        constructor <;> omega
      have hlast := hv.last
      cases hins : HeapFilePage.tryInsertRecord p record txId firstRid with
      | error e => simp [hins] at h
      | ok r =>
          obtain ⟨r, q⟩ := r
          simp only [hins, Outcome.ok_bind] at h
          rcases hlaid.tryInsertRecord hfits hn hins with ⟨rfl, rfl⟩ | ⟨rfl, hpage, hlaid'⟩
          · -- no room: only `last_insert_page` moves
            simp only [Except.ok.injEq, Prod.mk.injEq] at h
            obtain ⟨rfl, rfl⟩ := h
            obtain ⟨hf₁, hset⟩ : ∃ hf₁, hf.setPage hf.lastInsertPage q = hf₁ := ⟨_, rfl⟩
            have hcount : hf₁.lastInsertPage + 1 ≤ hf₁.pageCount := by
              rw [← hset]
              exact le_max_right ..
            have hv' := hv.setPage hlaid hid hend
            have hsame := setPage_slot_same hlaid
            have hschema : hf₁.schema = hf.schema := by rw [← hset]; rfl
            rw [hset] at hv' hsame ⊢
            exact ⟨hv'.advance hcount, hschema, .inl ⟨rfl, (slot_congr rfl rfl).trans hsame⟩⟩
          · simp only [Except.ok.injEq, Prod.mk.injEq] at h
            obtain ⟨rfl, rfl⟩ := h
            have hqid : q.pageId.pageNumber = hf.lastInsertPage := by rw [hpage, hid]
            rw [hid] at hlaid' ⊢
            -- the first free slot was dead or not there
            obtain ⟨cs, hc⟩ : ∃ cs, hf.contentsOf hf.lastInsertPage = cs := ⟨_, rfl⟩
            obtain ⟨k, hk⟩ : ∃ k, cs.firstFree = k := ⟨_, rfl⟩
            rw [hc, hk] at hlaid'
            rw [hc, hk]
            have hk_le : k ≤ cs.length := by rw [← hk]; exact List.findIdx_le_length
            have hfree : cs[k]?.join = none := by
              rcases Nat.lt_or_ge k cs.length with hlt | hge
              · have hnone : cs[k].isNone = true := by
                  subst hk
                  exact List.findIdx_getElem (w := hlt)
                rw [List.getElem?_eq_getElem hlt, Option.join_some]
                exact Option.isNone_iff_eq_none.mp hnone
              · rw [List.getElem?_eq_none_iff.mpr hge]
                rfl
            refine ⟨hv.setPage hlaid' hqid hend, rfl, .inr ⟨_, rfl, by
              rw [slot_nat, hc, hfree], ?_⟩⟩
            refine setPage_slot_update hlaid' ?_ ?_
            · unfold Contents.place
              split
              · rename_i hlt
                exact List.getElem?_set_self hlt
              · rw [show k = cs.length by omega]
                simp
                rfl
            · intro j hj
              rw [hc, Contents.place]
              split
              · rw [List.getElem?_set_ne (Ne.symm hj)]
              · rcases Nat.lt_or_ge j cs.length with hlt | hge
                · rw [List.getElem?_append_left hlt]
                · rw [List.getElem?_eq_none_iff.mpr (by simp; omega),
                    List.getElem?_eq_none_iff.mpr hge]

/-- `update_record_header` of a stored version. -/
theorem Valid.updateRecordHeader_eq (hv : hf.Valid) {rid newRid : RID} {header : RecordHeader}
    {vs : List Value} {txId : TxID} (h : hf.slot rid = some (header, vs)) (htx : txId < 2 ^ 64)
    (hrid : newRid.Fits) :
    ∃ hf', hf.updateRecordHeader rid newRid txId = .ok hf' ∧ hf'.Valid ∧
      hf'.schema = hf.schema ∧ hf'.slot = Function.update hf.slot rid
        (some ({ header with tMax := txId, next := newRid }, vs)) := by
  obtain ⟨n, i, rfl, hi⟩ := exists_nat_of_slot h
  obtain ⟨p, hp⟩ := hv.openPage_eq (hv.lt_pageCount hi)
  obtain ⟨hlaid, hid, hend⟩ := hv.openPage_ok hp
  obtain ⟨q, hq, hpage, hlaid'⟩ := hlaid.updateRecordHeader hi htx hrid
  obtain ⟨hlt, _⟩ := List.getElem?_eq_some_iff.mp hi
  refine ⟨hf.setPage n q, ?_, hv.setPage hlaid' (by rw [hpage, hid]) hend, rfl, ?_⟩
  · simp only [updateRecordHeader, hp, Outcome.ok_bind, hq, Int.toNat_natCast]
  · refine setPage_slot_update hlaid' (List.getElem?_set_self hlt) fun j hj => ?_
    rw [List.getElem?_set_ne (Ne.symm hj)]

/-- A new file is valid and empty. -/
theorem create_valid (schema : Schema) (fileId : FileId) :
    (create schema fileId).Valid ∧ ∀ rid, (create schema fileId).slot rid = none := by
  have hblank : ∀ n, Blank ((create schema fileId).pages n) := fun _ => rfl
  refine ⟨⟨fun _ => rfl, by norm_num [create], le_refl _, fun n => .inl (hblank n),
    fun n _ => hblank n⟩, fun rid => ?_⟩
  unfold slot contentsOf
  split
  · rw [(hblank _).contents_eq]
    rfl
  · rfl

end HeapFile

/-- The constructor of an iterator leaves the slots alone and counts page 0. -/
theorem HeapFileIter.create_ok {hf hf' : HeapFile} {it : HeapFileIter} (hv : hf.Valid)
    (h : HeapFileIter.create hf = .ok (it, hf')) :
    hf'.Valid ∧ hf'.schema = hf.schema ∧ hf'.slot = hf.slot ∧
      it = ⟨hf'.pageCount, 0, -1, false⟩ ∧ 0 < hf'.pageCount := by
  unfold create at h
  cases hp : hf.openPage 0 with
  | error e => simp [hp] at h
  | ok p =>
      simp only [hp, Outcome.ok_bind, Except.ok.injEq, Prod.mk.injEq] at h
      obtain ⟨rfl, rfl⟩ := h
      obtain ⟨hlaid, hid, hend⟩ := hv.openPage_ok (n := 0) hp
      refine ⟨hv.setPage hlaid hid hend, rfl, HeapFile.setPage_slot_same hlaid, rfl, ?_⟩
      show 0 < max hf.pageCount (0 + 1)
      omega

/-- An iterator can always be made. -/
theorem HeapFileIter.create_eq {hf : HeapFile} (hv : hf.Valid) :
    ∃ it hf', HeapFileIter.create hf = .ok (it, hf') := by
  have hopen : ∃ p, hf.openPage 0 = .ok p := by
    unfold HeapFile.openPage
    rw [if_neg (by omega), if_neg (by omega)]
    rcases hv.page 0 with hblank | ⟨cs, hlaid⟩
    · obtain ⟨q, hq, _⟩ := hblank.construct_laid hf.schema
      exact ⟨q, hq⟩
    · exact ⟨_, hlaid.construct_eq⟩
  obtain ⟨p, hp⟩ := hopen
  refine ⟨⟨(hf.setPage 0 p).pageCount, 0, -1, false⟩, hf.setPage 0 p, ?_⟩
  simp only [create, hp, Outcome.ok_bind]

end Iic3413Db.Storage
