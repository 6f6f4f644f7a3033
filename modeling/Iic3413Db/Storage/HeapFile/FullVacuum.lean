/-
  Storage/HeapFile/FullVacuum.lean --- `HeapFile::full_vacuum`, and what its calls
  do to one page.

  The memory `new char[Page::SIZE]` returns to the `vacuum` of page `n` is
  `bufs n`.  The walk along a tuple's versions and the walk over the slots take
  fuel; the loop over the trailing pages counts down.
-/
import Iic3413Db.Storage.HeapFile.HeapStore
import Iic3413Db.Storage.HeapFile.VacuumRuns

set_option autoImplicit false

namespace Iic3413Db.Storage

open Iic3413Db.Foundation Iic3413Db.RelationalModel HeapFilePage

namespace HeapFilePage

/-- The loop of `is_page_empty`. -/
def isPageEmptyLoop (page : Page) : Nat → Int → Outcome Bool
  | 0, _ => .ok true
  | slots + 1, i => do
      let dir ← getDir page i
      if 0 ≤ dir then .ok false else isPageEmptyLoop page slots (i + 1)

/-- `is_page_empty`. -/
def isPageEmpty (page : Page) : Outcome Bool := do
  let count ← getDirCount page
  isPageEmptyLoop page count.toNat 0

end HeapFilePage

namespace HeapStore

/-- The loop of `full_vacuum` along the versions of a tuple.  A version that is
gone gives `RecordHeader()`, whose `next` was never written. -/
def collapse : Nat → HeapStore → RID → RecordHeader → Outcome (Option HeapStore)
  | 0, _, _, _ => .ok none
  | fuel + 1, s, rid, header =>
      if header.tMax = 0 then .ok (some s)
      else do
        let (page, s) ← s.openPage rid.pageNum
        match ← getRecordHeader page rid.dirSlot with
        | none => .error (.undefinedBehaviour "fields of RecordHeader()")
        | some header =>
            if rid = header.next then do
              let page ← resetFirst page rid.dirSlot
              .ok (some (s.put rid.pageNum.toNat page))
            else do
              let page ← deleteRecordPhysically page rid.dirSlot
              let s := s.put rid.pageNum.toNat page
              if header.next = .deleted then .ok (some s) -- tuple logically deleted
              else collapse fuel s header.next header

/-- The loop of `full_vacuum` over the slots, at page `n` and past position
`pos`.  It ends with `current_page_number`. -/
def sweep (total : Nat) (bufs : Nat → PageBytes) :
    Nat → HeapStore → Nat → Int → Outcome (Option (Nat × HeapStore))
  | 0, _, _, _ => .ok none
  | fuel + 1, s, n, pos => do
      let (page, s) ← s.openPage n
      let count ← getDirCount page
      if count ≤ pos + 1 then do
        -- once the page is clean we do vacuum
        let page ← vacuum s.schema page (bufs n)
        let s := s.put n page
        if n + 1 < total then sweep total bufs fuel s (n + 1) (-1) else .ok (some (n + 1, s))
      else
        match ← getRecordHeader page (pos + 1) with
        | none => sweep total bufs fuel s n (pos + 1)
        | some header =>
            if (⟨n, pos + 1⟩ : RID) = header.first then do
              match ← collapse fuel s ⟨n, pos + 1⟩ header with
              | none => .ok none
              | some s => sweep total bufs fuel s n (pos + 1)
            else sweep total bufs fuel s n (pos + 1)

/-- The loop of `full_vacuum` that deletes the empty pages, from page `n - 1`
down. -/
def trim (total : Nat) : Nat → HeapStore → Outcome HeapStore
  | 0, s => .ok s
  | n + 1, s => do
      let (page, s) ← s.openPage n
      if ← isPageEmpty page then trim total n (s.deletePage n)
      else if total ≠ n + 1 then .ok (s.truncateFile (n + 1))
      else .ok s

/-- `full_vacuum`. -/
def fullVacuum (bufs : Nat → PageBytes) (fuel : Nat) (s : HeapStore) :
    Outcome (Option HeapStore) := do
  let total := s.pageCount
  let (_, s) ← s.openPage 0
  match ← sweep total bufs fuel s 0 (-1) with
  | none => .ok none
  | some (n, s) => do
      let s ← trim total (n + 1) s
      .ok (some { s with lastInsertPage := 0 })

end HeapStore

/-! ## The calls on one page -/

namespace HeapFilePage

section Pages

variable {schema : Schema} {p q : Page} {cs : Contents}

/-- A write past the counters. -/
theorem writeInt32_keeps {o v : Int} (h : p.writeInt32 o v = .ok q) (ho : 8 ≤ o) :
    q.dirty = true ∧ getFreeSpace q = getFreeSpace p := by
  obtain ⟨_, rfl⟩ := Page.write_ok_iff.mp h
  refine ⟨rfl, ?_⟩
  have hbounds : Page.InBounds 4 4 := ⟨by norm_num, by norm_num [Page.size]⟩
  unfold getFreeSpace Page.readInt32
  rw [Page.read_eq_ok hbounds, Page.read_eq_ok hbounds]
  dsimp only
  rw [Block.slice_splice_of_disjoint (.inl (by omega))]

theorem getDir_ge (hlaid : Laid schema p cs) {i : Nat} {e : RecordHeader × List Value}
    (hi : cs[i]? = some (some e)) : ∃ o, getDir p i = .ok o ∧ 8 ≤ o := by
  obtain ⟨sp, hr, rfl, _⟩ := hlaid
  obtain ⟨header, values⟩ := e
  obtain ⟨t, ht, _⟩ := SlottedPage.contents_live hi
  have hin := sp.inside i t ht
  exact ⟨t.offset, getDir_live hr ht, by omega⟩

theorem Laid.deleteRecordPhysically (h : Laid schema p cs) {i : Nat} (hi : i < cs.length) :
    ∃ q, deleteRecordPhysically p i = .ok q ∧ q.pageId = p.pageId ∧ q.dirty = true ∧
      getFreeSpace q = getFreeSpace p ∧ Laid schema q (cs.set i none) := by
  obtain ⟨sp, hr, rfl, _⟩ := h
  rw [sp.contents_length] at hi
  obtain ⟨q, sp', hdelete, hpage, hrep, hcontents⟩ := deleteRecordPhysically_spec hr hi
  have hwrite : p.writeInt32 (headerSize + dirSize * i) (-2) = .ok q := hdelete
  obtain ⟨hdirty, hfree⟩ := writeInt32_keeps hwrite (by simp only [headerSize, dirSize]; omega)
  refine ⟨q, hdelete, hpage, hdirty, hfree, sp', hrep, hcontents, fun hnil => ?_⟩
  have hlen : sp'.contents.length = 0 := by rw [sp'.contents_length, hnil]; rfl
  rw [hcontents, List.length_set, sp.contents_length] at hlen
  omega

theorem Laid.resetFirst (h : Laid schema p cs) {i : Nat} {header : RecordHeader}
    {vs : List Value} (hi : cs[i]? = some (some (header, vs)))
    (hn : -2 ^ 31 ≤ p.pageId.pageNumber ∧ p.pageId.pageNumber < 2 ^ 31) :
    ∃ q, resetFirst p i = .ok q ∧ q.pageId = p.pageId ∧ q.dirty = true ∧
      getFreeSpace q = getFreeSpace p ∧
      Laid schema q (cs.set i (some ({ header with first := ⟨p.pageId.pageNumber, i⟩ }, vs))) := by
  obtain ⟨o, hdir, ho⟩ := getDir_ge h hi
  obtain ⟨sp, hr, rfl, _⟩ := h
  obtain ⟨hlt, _⟩ := List.getElem?_eq_some_iff.mp hi
  obtain ⟨t, ht, rfl, rfl⟩ := SlottedPage.contents_live hi
  obtain ⟨q, sp', hreset, hpage, hrep, hcontents⟩ := resetFirst_spec hr ht hn
  have hkeeps : q.dirty = true ∧ getFreeSpace q = getFreeSpace p := by
    -- the two halves of the RID are written one after the other
    have hwrites := hreset
    unfold HeapFilePage.resetFirst setFirstRID at hwrites
    rw [hdir, Outcome.ok_bind] at hwrites
    cases hpn : p.writeInt32 (o + firstRidPageOffset) p.pageId.pageNumber with
    | error e =>
        rw [hpn, Outcome.error_bind] at hwrites
        cases hwrites
    | ok p' =>
        rw [hpn, Outcome.ok_bind] at hwrites
        obtain ⟨_, hfree⟩ := writeInt32_keeps hpn (by simp only [firstRidPageOffset]; omega)
        obtain ⟨hdirty, hfree'⟩ :=
          writeInt32_keeps hwrites (by simp only [firstRidDirOffset]; omega)
        exact ⟨hdirty, hfree'.trans hfree⟩
  refine ⟨q, hreset, hpage, hkeeps.1, hkeeps.2, sp', hrep, hcontents, fun hnil => ?_⟩
  have hlen : sp'.contents.length = 0 := by rw [sp'.contents_length, hnil]; rfl
  rw [hcontents, List.length_set] at hlen
  omega

theorem vacuum_dirty {buf : PageBytes} (h : vacuum schema p buf = .ok q) : q.dirty = true := by
  unfold vacuum at h
  cases hcount : getDirCount p with
  | error e => simp [hcount] at h
  | ok count =>
      simp only [hcount, Outcome.ok_bind] at h
      cases hloop : vacuumLoop schema p count.toNat 0 ⟨0, 0, Page.size - headerSize, buf⟩ with
      | error e => simp [hloop] at h
      | ok s =>
          simp only [hloop, Outcome.ok_bind] at h
          cases hwrite : p.write 0 (s.pageBuf.slice 0 Page.size) with
          | error e => simp [hwrite] at h
          | ok p₁ =>
              simp only [hwrite, Outcome.ok_bind] at h
              cases hlast : p₁.writeInt32 0 (s.lastUsefulDirCount + 1) with
              | error e => simp [hlast] at h
              | ok p₂ =>
                  simp only [hlast, Outcome.ok_bind] at h
                  obtain ⟨_, rfl⟩ := Page.write_ok_iff.mp h
                  rfl

/-- `vacuum` of a page that has a slot. -/
theorem Laid.vacuum (h : Laid schema p cs) (hne : cs ≠ []) (buf : PageBytes) :
    ∃ (q : Page) (cs' : Contents), vacuum schema p buf = .ok q ∧ q.pageId = p.pageId ∧
      q.dirty = true ∧ Laid schema q cs' ∧ cs' ≠ [] ∧ (∀ i : Nat, cs'[i]?.join = cs[i]?.join) ∧
      getFreeSpace q = .ok (4096 - 8 - 4 * cs'.length - cs'.liveSize) := by
  obtain ⟨sp, hr, rfl, _⟩ := h
  have hslots : sp.slots ≠ [] := by
    rintro hnil
    exact hne (List.length_eq_zero_iff.mp (by rw [sp.contents_length, hnil]; rfl))
  obtain ⟨q, hvac, hpage, hrep⟩ := vacuum_spec hr hslots buf
  have hlast : lastLive sp.contents = lastLive sp.slots := lastLive_map sp.slots _
  have hlt := lastLive_lt hslots
  have hcontents := contents_vacuumed sp
  have hlen : sp.vacuumed.contents.length = lastLive sp.slots + 1 := by
    rw [hcontents, hlast, List.length_take, sp.contents_length]
    omega
  refine ⟨q, sp.vacuumed.contents, hvac, hpage, vacuum_dirty hvac, ⟨_, hrep, rfl, ?_⟩, ?_, ?_, ?_⟩
  · intro hnil
    rw [sp.vacuumed.contents_length, hnil] at hlen
    cases hlen
  · intro hnil
    rw [hnil] at hlen
    cases hlen
  · intro i
    rw [hcontents, hlast, List.getElem?_take]
    split
    · rfl
    · -- no live slot comes after the last one
      rename_i hge
      cases hi : sp.contents[i]? with
      | none => rfl
      | some slot =>
          cases slot with
          | none => rfl
          | some e =>
              have hle := le_lastLive hi
              omega
  · have htotal := sp.floor_add_total_le
    have hfloor : sp.floor = 8 + 4 * sp.slots.length + sp.freeSpace := rfl
    have hlive : Contents.liveSize sp.vacuumed.contents = totalSize sp.slots := by
      rw [hcontents, liveSize_take_lastLive, liveSize_contents]
    have hfree : sp.vacuumed.freeSpace =
        4088 - 4 * sp.vacuumed.slots.length - totalSize sp.slots := rfl
    rw [getFreeSpace_eq hrep, hlive, hfree, ← sp.vacuumed.contents_length, hlen]
    refine congrArg Except.ok ?_
    omega

/-- `vacuum` of a page that has none: its one directory entry is whatever the
buffer held. -/
theorem Laid.vacuum_nil (h : Laid schema p []) (buf : PageBytes) :
    ∃ q, HeapFilePage.vacuum schema p buf = .ok q ∧ q.pageId = p.pageId ∧ q.dirty = true ∧
      getDirCount q = .ok 1 ∧ getDir q 0 = .ok (intValue (buf.slice 8 4)) := by
  have hcount : getDirCount p = .ok 0 := h.getDirCount_eq
  have hwrite : p.write 0 (buf.slice 0 Page.size) = .ok (p.patch 0 (buf.slice 0 4096)) :=
    write_patch rfl (by rw [Block.slice_length]; exact le_refl _)
  have hbytes : (p.patch 0 (buf.slice 0 4096)).bytes = buf := by
    rw [Page.patch_bytes]
    exact Block.splice_slice_all (n := 4096) p.bytes buf
  have hone := writeInt32_patch (p := p.patch 0 (buf.slice 0 4096)) (a := 0) (o := 0) (v := 0 + 1)
    rfl (by omega)
  have htwo := writeInt32_patch
    (p := (p.patch 0 (buf.slice 0 4096)).patch 0 (intBytes 4 (0 + 1))) (a := 4) (o := 4)
    (v := (Page.size : Int) - headerSize + (0 - (0 + 1)) * dirSize) rfl (by omega)
  obtain ⟨q, hq⟩ : ∃ q : Page, ((p.patch 0 (buf.slice 0 4096)).patch 0 (intBytes 4 (0 + 1))).patch 4
      (intBytes 4 ((Page.size : Int) - headerSize + (0 - (0 + 1)) * dirSize)) = q := ⟨_, rfl⟩
  have hvac : HeapFilePage.vacuum schema p buf = .ok q := by
    rw [← hq]
    simp only [HeapFilePage.vacuum, hcount, Outcome.ok_bind, Int.toNat_zero, vacuumLoop, hwrite]
    rw [hone, Outcome.ok_bind]
    exact htwo
  have hpage : q.pageId = p.pageId := by rw [← hq]; simp only [Page.patch_pageId]
  refine ⟨q, hvac, hpage, vacuum_dirty hvac, ?_, ?_⟩
  · rw [← hq]
    refine readInt32_of_holds (a := 0) rfl ?_ (by omega) (by omega)
    exact (Block.holds_splice_self (by simp)).splice_of_disjoint (by simp)
  · have hbounds : Page.InBounds 8 4 := ⟨by norm_num, by norm_num [Page.size]⟩
    have hslice : q.bytes.slice 8 4 = buf.slice 8 4 := by
      rw [← hq, Page.patch_bytes, Block.slice_splice_of_disjoint (.inr (by simp)),
        Page.patch_bytes, Block.slice_splice_of_disjoint (.inr (by simp)), hbytes]
    show q.readInt32 8 = _
    rw [Page.readInt32, Page.read_eq_ok hbounds]
    exact congrArg (fun bytes => Except.ok (intValue bytes)) hslice

/-- A page is empty when no slot is live. -/
theorem Laid.isPageEmpty_eq (h : Laid schema p cs) :
    isPageEmpty p = .ok (cs.all Option.isNone) := by
  obtain ⟨sp, hr, rfl, _⟩ := h
  have hloop : ∀ slots i : Nat, i + slots = sp.slots.length →
      isPageEmptyLoop p slots i = .ok ((sp.contents.drop i).all Option.isNone) := by
    intro slots
    induction slots with
    | zero =>
        intro i hi
        rw [List.drop_eq_nil_of_le (by rw [sp.contents_length]; omega)]
        rfl
    | succ slots ih =>
        intro i hi
        have hlt : i < sp.contents.length := by rw [sp.contents_length]; omega
        have hrest := ih (i + 1) (by omega)
        push_cast at hrest
        rw [isPageEmptyLoop, List.drop_eq_getElem_cons hlt, List.all_cons]
        have hget : sp.contents[i]? = some sp.contents[i] := List.getElem?_eq_getElem hlt
        cases hslot : sp.contents[i] with
        | none =>
            rw [hslot] at hget
            obtain ⟨d, hneg, hdir⟩ := getDir_dead hr (SlottedPage.contents_dead hget)
            simp only [hdir, Outcome.ok_bind, if_neg (not_le.mpr hneg), hrest, Option.isNone_none,
              Bool.true_and]
        | some e =>
            obtain ⟨header, values⟩ := e
            rw [hslot] at hget
            obtain ⟨t, ht, _⟩ := SlottedPage.contents_live hget
            have hpos := offset_pos ht
            simp only [getDir_live hr ht, Outcome.ok_bind, if_pos (le_of_not_ge hpos),
              Option.isNone_some, Bool.false_and]
  have hall := hloop sp.slots.length 0 (by omega)
  simp only [isPageEmpty, HeapFilePage.getDirCount_eq hr, Outcome.ok_bind, Int.toNat_natCast]
  exact hall

/-- A directory entry past the end of the page keeps it from counting as empty,
and cannot be read. -/
theorem junk_page (hcount : getDirCount p = .ok 1) (hdir : getDir p 0 = .ok (2 ^ 31 - 1)) :
    isPageEmpty p = .ok false ∧ getRecordHeader p 0 = .error Page.outOfBounds ∧
      construct p = .ok p := by
  refine ⟨?_, ?_, ?_⟩
  · have hone : (1 : Int).toNat = 0 + 1 := rfl
    simp only [isPageEmpty, hcount, Outcome.ok_bind, hone, isPageEmptyLoop, hdir]
    rfl
  · have hbounds : ¬ Page.InBounds ((2 : Int) ^ 31 - 1 + tMinOffset) 8 := by
      norm_num [Page.InBounds, Page.size, tMinOffset]
    have hread : p.readInt64 ((2 : Int) ^ 31 - 1 + tMinOffset) = .error Page.outOfBounds := by
      rw [Page.readInt64, Page.read, if_neg hbounds]
      rfl
    simp only [getRecordHeader, hdir, Outcome.ok_bind]
    rw [if_neg (by norm_num), hread, Outcome.error_bind]
  · simp only [construct, hcount, Outcome.ok_bind, one_ne_zero, if_false]

theorem junk_contents (schema : Schema) (hcount : getDirCount p = .ok 1)
    (hdir : getDir p 0 = .ok (2 ^ 31 - 1)) : contents schema p = [none] := by
  have hread := (junk_page hcount hdir).2.1
  have hone : (1 : Int).toNat = 1 := rfl
  simp only [contents, hcount, hone, List.range_one, List.map_cons, List.map_nil, Nat.cast_zero,
    hread]

end Pages

end HeapFilePage

end Iic3413Db.Storage
