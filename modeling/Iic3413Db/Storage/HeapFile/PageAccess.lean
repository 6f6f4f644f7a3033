/-
  Storage/HeapFile/PageAccess.lean --- the functions of `HeapFilePage` on a page
  that represents a slotted page.

  Reading first: each reader returns what the slot says.  Then `Page.patch`, the
  page after a write that stays in bounds; the runs of adjacent writes in the
  source are single patches, so a tuple is written by two, its directory entry
  and its bytes.
-/
import Iic3413Db.Storage.HeapFile.SlottedPage

set_option autoImplicit false

namespace Iic3413Db.Storage

open Iic3413Db.Foundation Iic3413Db.RelationalModel

namespace HeapFilePage

section Reading

variable {schema : Schema} {sp : SlottedPage schema} {p : Page}

theorem getDirCount_eq (hr : Represents sp p) : getDirCount p = .ok sp.slots.length := by
  have hle := sp.floor_le
  exact readInt32_of_holds (a := 0) rfl hr.count (by omega) (by omega)

theorem getFreeSpace_eq (hr : Represents sp p) : getFreeSpace p = .ok sp.freeSpace := by
  have hle := sp.floor_le
  exact readInt32_of_holds (a := 4) rfl hr.free (by omega) (by omega)

/-- The directory entry of a live slot is the offset of its tuple. -/
theorem getDir_live (hr : Represents sp p) {i : Nat} {t : Tuple}
    (hi : sp.slots[i]? = some (some t)) : getDir p i = .ok t.offset := by
  have hle := sp.floor_le
  obtain ⟨hlt, _⟩ := List.getElem?_eq_some_iff.mp hi
  have hin := sp.inside i t hi
  refine readInt32_of_holds (a := 8 + 4 * i) ?_ (hr.slot i _ hi).1 (by omega) (by omega)
  simp [headerSize, dirSize]

/-- The directory entry of a dead slot is negative. -/
theorem getDir_dead (hr : Represents sp p) {i : Nat} (hi : sp.slots[i]? = some none) :
    ∃ d : Int, d < 0 ∧ getDir p i = .ok d := by
  have hle := sp.floor_le
  obtain ⟨hlt, _⟩ := List.getElem?_eq_some_iff.mp hi
  obtain ⟨d, hd, hholds⟩ := hr.slot i _ hi
  refine ⟨d, hd.2, readInt32_of_holds (a := 8 + 4 * i) ?_ hholds (by omega) (by omega)⟩
  simp [headerSize, dirSize]

theorem offset_pos {i : Nat} {t : Tuple} (hi : sp.slots[i]? = some (some t)) :
    ¬ (t.offset : Int) ≤ 0 := by
  have hin := sp.inside i t hi
  omega

/-- The header bytes at an offset are read as the header. -/
theorem getRecordHeader_live (hr : Represents sp p) {i : Nat} {t : Tuple}
    (hi : sp.slots[i]? = some (some t)) : getRecordHeader p i = .ok (some t.header) := by
  have hin := (sp.inside i t hi).2
  have hsize : 32 ≤ t.size := by unfold Tuple.size; omega
  obtain ⟨htMin, htMax, hnext, hfirst⟩ := (sp.fits i t hi).header
  have hbytes : p.bytes.Holds t.offset (headerBytes t.header ++ payloadBytes t.values) :=
    (hr.slot i _ hi).2
  -- the six fields, one after the other
  simp only [headerBytes, ridBytes, Block.holds_append, intBytes_length, List.length_append]
    at hbytes
  obtain ⟨⟨hb1, hb2, ⟨hb3, hb4⟩, hb5, hb6⟩, _⟩ := hbytes
  obtain ⟨i1, hr1, hu1⟩ := readInt64_of_holds (o := t.offset + tMinOffset)
    (by simp [tMinOffset]) hb1 (by omega) htMin
  obtain ⟨i2, hr2, hu2⟩ := readInt64_of_holds (o := t.offset + tMaxOffset)
    (by simp [tMaxOffset]) hb2 (by omega) htMax
  have hr3 := readInt32_of_holds (o := t.offset + nextRidPageOffset)
    (by simp [nextRidPageOffset]; omega) hb3 (by omega) hnext.1
  have hr4 := readInt32_of_holds (o := t.offset + nextRidDirOffset)
    (by simp [nextRidDirOffset]; omega) hb4 (by omega) hnext.2
  have hr5 := readInt32_of_holds (o := t.offset + firstRidPageOffset)
    (by simp [firstRidPageOffset]; omega) hb5 (by omega) hfirst.1
  have hr6 := readInt32_of_holds (o := t.offset + firstRidDirOffset)
    (by simp [firstRidDirOffset]; omega) hb6 (by omega) hfirst.2
  simp only [getRecordHeader, getDir_live hr hi, Outcome.ok_bind, if_neg (offset_pos hi), hr1, hr2,
    hr3, hr4, hr5, hr6, hu1, hu2]

theorem getRecordHeader_dead (hr : Represents sp p) {i : Nat}
    (hi : sp.slots[i]? = some none) : getRecordHeader p i = .ok none := by
  obtain ⟨d, hneg, hdir⟩ := getDir_dead hr hi
  simp only [getRecordHeader, hdir, Outcome.ok_bind, if_pos (le_of_lt hneg)]

/-- The stored values are read back column by column. -/
theorem readValues_eq {cols : List ColumnInfo} {vs : List Value} (hm : Matches cols vs) :
    ∀ (off : Nat), p.bytes.Holds off (payloadBytes vs) → off + (payloadBytes vs).length ≤ 4096 →
      readValues p cols off = .ok vs := by
  induction hm with
  | nil => exact fun _ _ _ => rfl
  | @int col cols vs i hcol hfits _ ih =>
      intro off hholds hin
      obtain ⟨hhead, hrest⟩ := Block.holds_append.mp hholds
      simp only [payloadBytes, List.flatMap_cons, valueBytes, List.length_append, intBytes_length]
        at hhead hrest hin
      have hread := readInt64_of_range (o := off) rfl hhead (by omega) hfits
      have htail := ih (off + 8) hrest (by simp only [payloadBytes]; omega)
      push_cast at htail
      simp only [readValues, hcol, hread, Outcome.ok_bind, htail]
  | @str col cols vs s hcol hfits _ ih =>
      intro off hholds hin
      obtain ⟨hhead, hrest⟩ := Block.holds_append.mp hholds
      obtain ⟨hlen, hs⟩ := Block.holds_append.mp hhead
      simp only [payloadBytes, List.flatMap_cons, valueBytes, List.length_append, leBytes_length]
        at hlen hs hrest hin
      have hshort : s.length ≤ 255 := hfits
      have hread := readUint8_of_holds (o := off) rfl hlen (by omega) (by omega)
      have hreads := read_of_holds (o := off + 1) (by push_cast; rfl) hs (by omega)
      have htail := ih (off + (1 + s.length)) hrest (by simp only [payloadBytes]; omega)
      rw [show ((off + (1 + s.length) : Nat) : Int) = off + 1 + s.length by push_cast; ring] at htail
      simp only [readValues, hcol, hread, Outcome.ok_bind, hreads, htail]
  | @skip col cols vs hcol _ ih =>
      intro off hholds hin
      rcases hcol with hcol | hcol <;> simp only [readValues, hcol] <;> exact ih off hholds hin

theorem getRecord_live (hr : Represents sp p) {i : Nat} {t : Tuple}
    (hi : sp.slots[i]? = some (some t)) : getRecord schema p i = .ok ⟨t.values⟩ := by
  have hin := (sp.inside i t hi).2
  have hbytes : p.bytes.Holds t.offset (headerBytes t.header ++ payloadBytes t.values) :=
    (hr.slot i _ hi).2
  obtain ⟨_, hpayload⟩ := Block.holds_append.mp hbytes
  rw [headerBytes_length] at hpayload
  have hread := readValues_eq (sp.fits i t hi).values (t.offset + 32) hpayload (by
    unfold Tuple.size at hin
    rw [payloadBytes_length]
    omega)
  push_cast at hread
  simp only [getRecord, getDir_live hr hi, Outcome.ok_bind, if_neg (offset_pos hi),
    tupleHeaderSize, hread]

theorem getRecord_dead (hr : Represents sp p) {i : Nat} (hi : sp.slots[i]? = some none) :
    getRecord schema p i = .ok Record.empty := by
  obtain ⟨d, hneg, hdir⟩ := getDir_dead hr hi
  simp only [getRecord, hdir, Outcome.ok_bind, if_pos (le_of_lt hneg)]

/-- The search for a directory entry stops at the first dead slot. -/
theorem findDirPos_eq (hr : Represents sp p) : ∀ (fuel pos : Nat),
    sp.slots.length = pos + fuel →
    findDirPos p sp.slots.length fuel pos =
      .ok (pos + (sp.slots.drop pos).findIdx Option.isNone : Nat) := by
  intro fuel
  induction fuel with
  | zero =>
      intro pos hlen
      rw [findDirPos, List.drop_eq_nil_of_le (by omega)]
      rfl
  | succ fuel ih =>
      intro pos hlen
      have hlt : pos < sp.slots.length := by omega
      have hget : sp.slots[pos]? = some sp.slots[pos] := List.getElem?_eq_getElem hlt
      rw [findDirPos, if_pos (by exact_mod_cast hlt), List.drop_eq_getElem_cons hlt,
        List.findIdx_cons]
      cases hslot : sp.slots[pos] with
      | none =>
          rw [hslot] at hget
          obtain ⟨d, hneg, hdir⟩ := getDir_dead hr hget
          simp only [hdir, Outcome.ok_bind, if_neg (not_lt.mpr (le_of_lt hneg))]
          rfl
      | some t =>
          rw [hslot] at hget
          have hpos := offset_pos hget
          have hnext := ih (pos + 1) (by omega)
          push_cast at hnext
          simp only [getDir_live hr hget, Outcome.ok_bind, if_pos (not_le.mp hpos), hnext]
          simp only [Option.isNone_some, cond_false]
          congr 1
          omega

end Reading

end HeapFilePage

/-! ## Patches -/

/-- The page after a write that stays in bounds. -/
def Page.patch (p : Page) (off : Nat) (data : List UInt8) : Page :=
  { p with bytes := p.bytes.splice off data, dirty := true }

@[simp] theorem Page.patch_bytes (p : Page) (off : Nat) (data : List UInt8) :
    (p.patch off data).bytes = p.bytes.splice off data := rfl

@[simp] theorem Page.patch_pageId (p : Page) (off : Nat) (data : List UInt8) :
    (p.patch off data).pageId = p.pageId := rfl

/-- Adjacent patches are one patch. -/
theorem Page.patch_append (p : Page) (off off' : Nat) (d e : List UInt8)
    (h : off' = off + d.length) : (p.patch off d).patch off' e = p.patch off (d ++ e) := by
  subst h
  simp [Page.patch, Block.splice_append]

theorem write_patch {p : Page} {a : Nat} {o : Int} {data : List UInt8} (ho : o = a)
    (hin : a + data.length ≤ 4096) : p.write o data = .ok (p.patch a data) := by
  subst ho
  rw [Page.write_eq_ok ⟨by omega, by simp only [Page.size]; omega⟩]
  rfl

theorem writeInt32_patch {p : Page} {a : Nat} {o v : Int} (ho : o = a)
    (hin : a + 4 ≤ 4096) : p.writeInt32 o v = .ok (p.patch a (intBytes 4 v)) :=
  write_patch ho (by simpa using hin)

theorem writeInt64_patch {p : Page} {a : Nat} {o v : Int} (ho : o = a)
    (hin : a + 8 ≤ 4096) : p.writeInt64 o v = .ok (p.patch a (intBytes 8 v)) :=
  write_patch ho (by simpa using hin)

namespace HeapFilePage

/-- The data loop appends the payload to what was written before it. -/
theorem writeValues_eq : ∀ (vs : List Value) (p : Page) (off : Nat) (d : List UInt8),
    (∀ v ∈ vs, v.Fits) → off + d.length + (payloadBytes vs).length ≤ 4096 →
    writeValues vs (off + d.length : Nat) (p.patch off d) =
      .ok (p.patch off (d ++ payloadBytes vs)) := by
  intro vs
  induction vs with
  | nil =>
      intro p off d _ _
      simp [writeValues, payloadBytes]
  | cons v vs ih =>
      intro p off d hfits hin
      have hrest : ∀ v ∈ vs, v.Fits := fun w hw => hfits w (List.mem_cons_of_mem _ hw)
      have hsplit : payloadBytes (v :: vs) = valueBytes v ++ payloadBytes vs := rfl
      rw [hsplit, List.length_append] at hin
      rw [hsplit]
      cases v with
      | rid r => exact ih p off d hrest (by simp only [valueBytes, List.length_nil] at hin; omega)
      | int i =>
          simp only [valueBytes, intBytes_length] at hin
          have hnext := ih p off (d ++ intBytes 8 i) hrest
            (by rw [List.length_append, intBytes_length]; omega)
          rw [List.length_append, intBytes_length, List.append_assoc] at hnext
          rw [writeValues, writeInt64_patch rfl (by omega), Outcome.ok_bind,
            Page.patch_append _ _ _ _ _ rfl]
          exact hnext
      | string s =>
          have hshort : s.length ≤ 255 := hfits _ (List.mem_cons_self ..)
          simp only [valueBytes, List.length_append, leBytes_length] at hin
          have hnext := ih p off (d ++ (leBytes 1 s.length ++ s)) hrest
            (by simp only [List.length_append, leBytes_length]; omega)
          simp only [List.length_append, leBytes_length, List.append_assoc] at hnext
          have hmod : s.length % 256 = s.length := by omega
          have hlen : Page.writeInt8 (p.patch off d) (off + d.length : Nat) s.length =
              .ok (p.patch off (d ++ leBytes 1 s.length)) := by
            rw [Page.writeInt8, write_patch rfl (by simp; omega), Page.patch_append _ _ _ _ _ rfl]
          have hdata : Page.write (p.patch off (d ++ leBytes 1 s.length))
              ((off + d.length : Nat) + 1) s = .ok (p.patch off (d ++ leBytes 1 s.length ++ s)) := by
            rw [write_patch (a := off + d.length + 1) (by push_cast; rfl) (by omega),
              Page.patch_append _ _ _ _ _ (by simp; omega)]
          simp only [writeValues, hmod, hlen, Outcome.ok_bind, List.take_length, hdata, valueBytes,
            List.append_assoc]
          rw [show ((off + d.length : Nat) + 1 + s.length : Int) =
            ((off + (d.length + (1 + s.length)) : Nat) : Int) by push_cast; ring]
          exact hnext

/-- The end of `try_insert_record` is two patches: the directory entry and the
bytes of the tuple. -/
theorem writeTuple_eq (p : Page) {record : Record} (i a : Nat) (txId : TxID)
    (firstRid : Option RID) (hfits : ∀ v ∈ record.values, v.Fits) (hdir : 8 + 4 * i + 4 ≤ 4096)
    (hin : a + 32 + (payloadBytes record.values).length ≤ 4096) :
    writeTuple p record i a txId firstRid =
      .ok ((p.patch (8 + 4 * i) (intBytes 4 a)).patch a
        (headerBytes ⟨txId, 0, ⟨p.pageId.pageNumber, i⟩,
          firstRid.getD ⟨p.pageId.pageNumber, i⟩⟩ ++ payloadBytes record.values)) := by
  have hset : setDir p i a = .ok (p.patch (8 + 4 * i) (intBytes 4 a)) :=
    writeInt32_patch (by simp [headerSize, dirSize]) hdir
  obtain ⟨q, hq, hpage⟩ : ∃ q : Page, p.patch (8 + 4 * i) (intBytes 4 a) = q ∧
      q.pageId = p.pageId := ⟨_, rfl, rfl⟩
  rw [hq] at hset ⊢
  simp only [writeTuple, hset, Outcome.ok_bind, hpage, tMinOffset, tMaxOffset, nextRidPageOffset,
    nextRidDirOffset, firstRidPageOffset, firstRidDirOffset, tupleHeaderSize]
  rw [writeInt64_patch (a := a) (by omega) (by omega), Outcome.ok_bind,
    writeInt64_patch (a := a + 8) (by omega) (by omega), Outcome.ok_bind,
    Page.patch_append _ _ _ _ _ (by simp),
    writeInt32_patch (a := a + 16) (by omega) (by omega), Outcome.ok_bind,
    Page.patch_append _ _ _ _ _ (by simp),
    writeInt32_patch (a := a + 20) (by omega) (by omega), Outcome.ok_bind,
    Page.patch_append _ _ _ _ _ (by simp),
    writeInt32_patch (a := a + 24) (by omega) (by omega), Outcome.ok_bind,
    Page.patch_append _ _ _ _ _ (by simp),
    writeInt32_patch (a := a + 28) (by omega) (by omega), Outcome.ok_bind,
    Page.patch_append _ _ _ _ _ (by simp)]
  have hvalues := writeValues_eq record.values q a
    (headerBytes ⟨txId, 0, ⟨p.pageId.pageNumber, i⟩, firstRid.getD ⟨p.pageId.pageNumber, i⟩⟩)
    hfits (by rw [headerBytes_length]; omega)
  rw [headerBytes_length] at hvalues
  push_cast at hvalues
  simp only [headerBytes, ridBytes, List.append_assoc] at hvalues ⊢
  exact hvalues

end HeapFilePage

end Iic3413Db.Storage
