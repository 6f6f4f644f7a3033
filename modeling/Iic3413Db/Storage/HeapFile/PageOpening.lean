/-
  Storage/HeapFile/PageOpening.lean --- sessions that open one new page and insert into it.

  The two reads and the write of the constructor are steps of their own, since they take no
  lock; `try_insert_record` holds `edit_mutex` and is one step.  `stored` is history: the
  tuples that were inserted, in order.
-/
import Iic3413Db.Storage.HeapFile.PageRuns

set_option autoImplicit false

namespace Iic3413Db.Storage

open Iic3413Db.Foundation Iic3413Db.RelationalModel HeapFilePage

/-! ## Steps -/

/-- Where a session is with its `HeapFilePage`. -/
inductive Opening where
  | away
  /-- in the constructor, with the page pinned -/
  | pinned
  /-- `get_dir_count()` returned 0 -/
  | counted
  /-- `get_free_space()` returned 0 too -/
  | blank
  | opened
  deriving DecidableEq, Repr

/-- The page, the sessions and what they have stored. -/
structure SharedPage where
  page : Page
  openings : Nat → Opening
  stored : List (RecordHeader × List Value)

inductive PageEvent where
  | getPage
  | readDirCount
  | readFreeSpace
  | writeFreeSpace
  | insert (record : Record) (txId : TxID) (firstRid : Option RID)
  | unpin

namespace SharedPage

def goTo (s : SharedPage) (session : Nat) (opening : Opening) : SharedPage :=
  { s with openings := Function.update s.openings session opening }

/-- One step of a session. -/
inductive Step (schema : Schema) : SharedPage → Nat × PageEvent → SharedPage → Prop
  | getPage {s : SharedPage} {session : Nat} (hs : s.openings session = .away) :
      Step schema s (session, .getPage) (s.goTo session .pinned)
  | readDirCount {s : SharedPage} {session : Nat} {dirCount : Int}
      (hs : s.openings session = .pinned) (h : getDirCount s.page = .ok dirCount) :
      Step schema s (session, .readDirCount)
        (s.goTo session (if dirCount = 0 then .counted else .opened))
  | readFreeSpace {s : SharedPage} {session : Nat} {freeSpace : Int}
      (hs : s.openings session = .counted) (h : getFreeSpace s.page = .ok freeSpace) :
      Step schema s (session, .readFreeSpace)
        (s.goTo session (if freeSpace = 0 then .blank else .opened))
  | writeFreeSpace {s : SharedPage} {session : Nat} {page : Page}
      (hs : s.openings session = .blank)
      (h : setFreeSpace s.page (Page.size - 2 * 4) = .ok page) :
      Step schema s (session, .writeFreeSpace) { s.goTo session .opened with page := page }
  | insert {s : SharedPage} {session : Nat} {record : Record} {txId : TxID}
      {firstRid : Option RID} {rid : RID} {page : Page} (hs : s.openings session = .opened)
      (hlegal : InsertFits schema record txId firstRid)
      (h : tryInsertRecord s.page record txId firstRid = .ok (some rid, page)) :
      Step schema s (session, .insert record txId firstRid)
        { s with
          page := page
          stored := s.stored ++
            [(newHeader s.page.pageId.pageNumber rid.dirSlot.toNat txId firstRid, record.stored)] }
  | refuse {s : SharedPage} {session : Nat} {record : Record} {txId : TxID}
      {firstRid : Option RID} {page : Page} (hs : s.openings session = .opened)
      (hlegal : InsertFits schema record txId firstRid)
      (h : tryInsertRecord s.page record txId firstRid = .ok (none, page)) :
      Step schema s (session, .insert record txId firstRid) { s with page := page }
  | unpin {s : SharedPage} {session : Nat} (hs : s.openings session = .opened) :
      Step schema s (session, .unpin) (s.goTo session .away)

/-- A page of zeros that no session has opened. -/
def Untouched (s : SharedPage) : Prop :=
  s.page.bytes = (fun _ => 0) ∧
    (-2 ^ 31 ≤ s.page.pageId.pageNumber ∧ s.page.pageId.pageNumber < 2 ^ 31) ∧
    s.openings = (fun _ => .away) ∧ s.stored = []

end SharedPage

/-- Sessions that open and insert. -/
def pageOpening (schema : Schema) : Machine SharedPage (Nat × PageEvent) where
  init := SharedPage.Untouched
  step := SharedPage.Step schema

/-! ## The account of the free space -/

/-- The bytes of the tuples, with their headers. -/
def tuplesSize (stored : List (RecordHeader × List Value)) : Nat :=
  (stored.map fun entry => 32 + valuesSize entry.2).sum

/-- The directory and the tuples account for what is not free, and the tuples read back. -/
structure SharedPage.Kept (schema : Schema) (s : SharedPage) : Prop where
  accounts : ∃ dirCount freeSpace : Int, getDirCount s.page = .ok dirCount ∧
    getFreeSpace s.page = .ok freeSpace ∧
    freeSpace = 4096 - 8 - 4 * dirCount - tuplesSize s.stored
  reads : PageState.Reads schema ⟨s.page, s.stored.map some⟩

/-- The initialising write finds no tuple, and the size of a record is an `int32_t`. -/
def SharedPage.Timely (s : SharedPage) : Nat × PageEvent → Prop
  | (_, .writeFreeSpace) => getDirCount s.page = .ok 0
  | (_, .insert record _ _) => valuesSize record.values + 36 < 2 ^ 31
  | _ => True

/-- The page holds the stored tuples one below the other. -/
def SharedPage.Packed (schema : Schema) (s : SharedPage) : Prop :=
  ∃ sp : SlottedPage schema, Represents sp s.page ∧ sp.contents = s.stored.map some ∧
    8 + 4 * s.stored.length + sp.freeSpace + tuplesSize s.stored = 4096

/-- The counters are still zero. -/
structure SharedPage.Blank (s : SharedPage) : Prop where
  count : s.page.bytes.Holds 0 (intBytes 4 0)
  free : s.page.bytes.Holds 4 (intBytes 4 0)
  stored : s.stored = []
  openings : ∀ session, s.openings session ≠ .opened

structure SharedPage.Inv (schema : Schema) (s : SharedPage) : Prop where
  number : -2 ^ 31 ≤ s.page.pageId.pageNumber ∧ s.page.pageId.pageNumber < 2 ^ 31
  page : s.Blank ∨ s.Packed schema

section Invariant

variable {schema : Schema} {s t : SharedPage}

namespace SharedPage

theorem Inv.count (h : s.Inv schema) : s.page.bytes.Holds 0 (intBytes 4 s.stored.length) := by
  rcases h.page with hblank | ⟨sp, hr, hcontents, _⟩
  · rw [hblank.stored]
    exact hblank.count
  · have hlength := congrArg List.length hcontents
    rw [SlottedPage.contents_length, List.length_map] at hlength
    rw [← hlength]
    exact hr.count

theorem Inv.dirCount_eq (h : s.Inv schema) : getDirCount s.page = .ok s.stored.length := by
  have hshort : s.stored.length < 2 ^ 31 := by
    rcases h.page with hblank | ⟨_, _, _, htotal⟩
    · rw [hblank.stored]
      decide
    · omega
  exact readInt32_of_holds (a := 0) rfl h.count (by omega) (by omega)

theorem Inv.stored_eq_nil (h : s.Inv schema) (hzero : getDirCount s.page = .ok 0) :
    s.stored = [] := by
  rw [h.dirCount_eq] at hzero
  have hlength := Except.ok.inj hzero
  exact List.length_eq_zero_iff.mp (by omega)

theorem Packed.kept (hn : -2 ^ 31 ≤ s.page.pageId.pageNumber ∧ s.page.pageId.pageNumber < 2 ^ 31)
    (h : s.Packed schema) : s.Kept schema := by
  have hinv : s.Inv schema := ⟨hn, .inr h⟩
  obtain ⟨sp, hr, hcontents, htotal⟩ := h
  have hvalid : PageState.Valid schema ⟨s.page, s.stored.map some⟩ := ⟨hn, sp, hr, hcontents⟩
  exact ⟨⟨_, _, hinv.dirCount_eq, getFreeSpace_eq hr, by omega⟩, hvalid.reads⟩

theorem setFreeSpace_initial (p : Page) :
    setFreeSpace p (Page.size - 2 * 4) = .ok (p.patch 4 (intBytes 4 4088)) :=
  writeInt32_patch rfl (by omega)

/-- The initialising write on a page with no tuple. -/
theorem packed_of_write {p : Page} {openings : Nat → Opening}
    {stored : List (RecordHeader × List Value)} (hnil : stored = [])
    (hcount : p.bytes.Holds 0 (intBytes 4 stored.length)) :
    Packed schema ⟨p.patch 4 (intBytes 4 4088), openings, stored⟩ := by
  subst hnil
  refine ⟨⟨[], 4088, by decide, fun i t h => ?_, fun i j t u h => ?_, fun i t h => ?_⟩,
    ⟨?_, ?_, fun i slot h => ?_⟩, rfl, rfl⟩
  · cases h
  · cases h
  · cases h
  · exact hcount.splice_of_disjoint (by simp)
  · exact Block.holds_splice_self (by simp)
  · cases h

theorem firstFree_map_some (stored : List (RecordHeader × List Value)) :
    Contents.firstFree (stored.map some) = stored.length := by
  have hnone : ∀ x ∈ stored.map some, Option.isNone x = false := by
    rintro x hx
    obtain ⟨entry, _, rfl⟩ := List.mem_map.mp hx
    rfl
  rw [Contents.firstFree, List.findIdx_eq_length.mpr hnone, List.length_map]

theorem tuplesSize_snoc (stored : List (RecordHeader × List Value))
    (entry : RecordHeader × List Value) :
    tuplesSize (stored ++ [entry]) = tuplesSize stored + (32 + valuesSize entry.2) := by
  simp [tuplesSize]

theorem valuesSize_stored (record : Record) :
    valuesSize record.stored = valuesSize record.values := by
  have hlength := congrArg List.length (payloadBytes_stored record)
  rwa [payloadBytes_length, payloadBytes_length] at hlength

/-- `try_insert_record` on a packed page. -/
theorem Packed.insert (h : s.Packed schema)
    (hn : -2 ^ 31 ≤ s.page.pageId.pageNumber ∧ s.page.pageId.pageNumber < 2 ^ 31)
    {record : Record} {txId : TxID} {firstRid : Option RID}
    (hlegal : InsertFits schema record txId firstRid)
    (hsize : valuesSize record.values + 36 < 2 ^ 31) :
    4096 < 8 + 4 * s.stored.length + tuplesSize s.stored + (valuesSize record.values + 36) ∧
        tryInsertRecord s.page record txId firstRid = .ok (none, s.page) ∨
      ∃ page', tryInsertRecord s.page record txId firstRid =
          .ok (some ⟨s.page.pageId.pageNumber, s.stored.length⟩, page') ∧
        page'.pageId = s.page.pageId ∧
        Packed schema { s with
          page := page'
          stored := s.stored ++
            [(newHeader s.page.pageId.pageNumber s.stored.length txId firstRid,
              record.stored)] } := by
  obtain ⟨sp, hr, hcontents, htotal⟩ := h
  have hlength : sp.slots.length = s.stored.length := by
    rw [← sp.contents_length, hcontents, List.length_map]
  have hfree : sp.contents.firstFree = s.stored.length := by
    rw [hcontents, firstFree_map_some]
  have hneed : insertSize sp.slots.length sp.contents.firstFree record =
      valuesSize record.values + 36 := by
    rw [insertSize, hfree, hlength, if_neg (lt_irrefl _)]
    rfl
  rcases tryInsertRecord_spec hr hlegal hn (by unfold RoomFits; omega) with
    ⟨hspace, hrefuse⟩ | ⟨page', sp', hspace, hinsert, hpage, hr', hcontents'⟩
  · exact .inl ⟨by omega, hrefuse⟩
  · right
    rw [hfree] at hinsert hcontents'
    refine ⟨page', hinsert, hpage, sp', hr', ?_, ?_⟩
    · rw [hcontents', hcontents, Contents.place, if_neg (by simp), List.map_append]
      rfl
    · rw [tuplesSize_snoc, valuesSize_stored, List.length_append, List.length_singleton]
      omega

theorem Blank.goTo (h : s.Blank) (session : Nat) {opening : Opening} (hne : opening ≠ .opened) :
    (s.goTo session opening).Blank := by
  refine ⟨h.count, h.free, h.stored, fun other => ?_⟩
  by_cases hother : other = session
  · subst hother
    simpa [SharedPage.goTo] using hne
  · simpa [SharedPage.goTo, Function.update_of_ne hother] using h.openings other

/-- A step that is on time keeps the invariant. -/
theorem Inv.step {event : Nat × PageEvent} (h : s.Inv schema) (htimely : s.Timely event)
    (hstep : Step schema s event t) : t.Inv schema := by
  have hinv := h
  obtain ⟨hn, hpage⟩ := h
  -- a session that goes on without a page open keeps a blank page blank
  have hgo : ∀ (session : Nat) (opening : Opening),
      (s.Blank → opening ≠ .opened) → (s.goTo session opening).Inv schema := by
    intro session opening hopening
    exact ⟨hn, hpage.imp (fun hblank => hblank.goTo session (hopening hblank)) id⟩
  have hopened : ∀ session, s.openings session = .opened → s.Packed schema := by
    intro session hs
    exact hpage.resolve_left fun hblank => hblank.openings session hs
  cases hstep with
  | getPage hs => exact hgo _ _ fun _ => by decide
  | readDirCount hs hread =>
      refine hgo _ _ fun hblank => ?_
      rw [hinv.dirCount_eq, hblank.stored] at hread
      cases hread
      decide
  | readFreeSpace hs hread =>
      refine hgo _ _ fun hblank => ?_
      have hzero : getFreeSpace s.page = .ok 0 :=
        readInt32_of_holds (a := 4) rfl hblank.free (by omega) ⟨by decide, by decide⟩
      rw [hzero] at hread
      cases hread
      decide
  | writeFreeSpace hs hwrite =>
      have hnil := hinv.stored_eq_nil htimely
      rw [setFreeSpace_initial] at hwrite
      cases hwrite
      exact ⟨hn, .inr (packed_of_write hnil hinv.count)⟩
  | insert hs hlegal hinsert =>
      rcases (hopened _ hs).insert hn hlegal htimely with ⟨_, hrefuse⟩ | ⟨page', haccept, hid, hpacked⟩
      · rw [hrefuse] at hinsert
        cases hinsert
      · rw [haccept] at hinsert
        cases hinsert
        exact ⟨hid ▸ hn, .inr hpacked⟩
  | refuse hs hlegal hinsert =>
      rcases (hopened _ hs).insert hn hlegal htimely with ⟨_, hrefuse⟩ | ⟨page', haccept, _⟩
      · rw [hrefuse] at hinsert
        cases hinsert
        exact ⟨hn, hpage⟩
      · rw [haccept] at hinsert
        cases hinsert
  | unpin hs => exact hgo _ _ fun _ => by decide

theorem Untouched.blank (h : s.Untouched) : s.Blank := by
  obtain ⟨⟨n, bytes, pins, chance, dirty⟩, openings, stored⟩ := s
  obtain ⟨hzero, _, haway, hnil⟩ := h
  dsimp only at hzero haway hnil
  subst hzero haway hnil
  exact ⟨holds_zero n 0 pins chance dirty, holds_zero n 4 pins chance dirty, rfl,
    fun _ => Opening.noConfusion⟩

theorem inv_of_reachable (h : ((pageOpening schema).restrict Timely).Reachable s) :
    s.Inv schema := by
  refine Machine.Reachable.invariant (fun s hs => ?_) (fun s event t hinv hstep => ?_) h
  · exact ⟨hs.2.1, .inl hs.blank⟩
  · exact hinv.step hstep.1 hstep.2

/-- The initialising write leaves no account of the tuples that are there. -/
theorem late_write {session : Nat}
    (hstep : Step schema s (session, .writeFreeSpace) t) (hkept : t.Kept schema) :
    s.stored = [] := by
  cases hstep with
  | writeFreeSpace hs hwrite =>
      rw [setFreeSpace_initial] at hwrite
      cases hwrite
      obtain ⟨dirCount, freeSpace, hcount, hfree, htotal⟩ := hkept.accounts
      have hwritten : getFreeSpace (s.page.patch 4 (intBytes 4 4088)) = .ok 4088 :=
        readInt32_of_holds (a := 4) rfl (Block.holds_splice_self (by simp)) (by omega)
          ⟨by decide, by decide⟩
      have hread := hkept.reads.count
      dsimp only [goTo] at hcount hfree htotal hread
      rw [hwritten] at hfree
      rw [hcount] at hread
      have hlength := Except.ok.inj hread
      have hsame := Except.ok.inj hfree
      rw [List.length_map] at hlength
      exact List.length_eq_zero_iff.mp (by omega)

end SharedPage

/-- In every run whose initialising writes are on time, the free space of the page is what the
tuples leave; a write that is not on time loses the account. -/
theorem initialised_once (h : ((pageOpening schema).restrict SharedPage.Timely).Reachable s) :
    (s.stored ≠ [] → s.Kept schema) ∧
      ∀ session t, SharedPage.Step schema s (session, .writeFreeSpace) t →
        (t.Kept schema ↔ s.Timely (session, .writeFreeSpace)) := by
  have hinv := SharedPage.inv_of_reachable h
  refine ⟨fun hne => ?_, fun session t hstep => ⟨fun hkept => ?_, fun htimely => ?_⟩⟩
  · exact (hinv.page.resolve_left fun hblank => hne hblank.stored).kept hinv.number
  · show getDirCount s.page = .ok 0
    rw [hinv.dirCount_eq, SharedPage.late_write hstep hkept]
    rfl
  · have hinv' := hinv.step htimely hstep
    have hopened : t.openings session = .opened := by
      cases hstep with
      | writeFreeSpace hs hwrite => exact Function.update_self ..
    exact (hinv'.page.resolve_left fun hblank => hblank.openings session hopened).kept hinv'.number

/-! ## The constructor without interruption -/

/-- `construct` is what the steps of a session come to when no other goes between them. -/
theorem construct_run {session : Nat} {page : Page} (haway : s.openings session = .away)
    (h : construct s.page = .ok page) :
    ∃ events, (pageOpening schema).Run s events { s.goTo session .opened with page := page } := by
  have hpinned := Machine.Run.single (M := pageOpening schema) (SharedPage.Step.getPage haway)
  obtain ⟨dirCount, hcount, h⟩ := Outcome.of_bind_ok h
  have hcounted := hpinned.snoc (SharedPage.Step.readDirCount (Function.update_self ..) hcount)
  by_cases hzero : dirCount = 0
  · obtain ⟨freeSpace, hfree, h⟩ := Outcome.of_bind_ok (by rwa [if_pos hzero] at h)
    rw [if_pos hzero] at hcounted
    have hread := hcounted.snoc (SharedPage.Step.readFreeSpace (Function.update_self ..) hfree)
    dsimp only at h
    by_cases hblank : freeSpace = 0
    · rw [if_pos hblank] at h hread
      have hwritten := hread.snoc (SharedPage.Step.writeFreeSpace (Function.update_self ..) h)
      exact ⟨_, by simpa [SharedPage.goTo] using hwritten⟩
    · rw [if_neg hblank] at h hread
      cases h
      exact ⟨_, by simpa [SharedPage.goTo] using hread⟩
  · rw [if_neg hzero] at h hcounted
    cases h
    exact ⟨_, by simpa [SharedPage.goTo] using hcounted⟩

end Invariant

/-! ## A session that is late -/

/-- A session that has found the page blank may wait before it writes. -/
theorem late_blank {schema : Schema} {s : SharedPage} {session : Nat}
    (h : ((pageOpening schema).restrict SharedPage.Timely).Reachable s) (hblank : s.Blank)
    (haway : s.openings session = .away) :
    ((pageOpening schema).restrict SharedPage.Timely).Reachable (s.goTo session .blank) := by
  have hcount : getDirCount s.page = .ok 0 :=
    readInt32_of_holds (a := 0) rfl hblank.count (by omega) ⟨by decide, by decide⟩
  have hfree : getFreeSpace s.page = .ok 0 :=
    readInt32_of_holds (a := 4) rfl hblank.free (by omega) ⟨by decide, by decide⟩
  have hpinned := h.step (l := (session, PageEvent.getPage)) ⟨trivial, .getPage haway⟩
  have hcounted := hpinned.step (l := (session, PageEvent.readDirCount))
    ⟨trivial, .readDirCount (Function.update_self ..) hcount⟩
  have hread := hcounted.step (l := (session, PageEvent.readFreeSpace))
    ⟨trivial, .readFreeSpace (Function.update_self ..) hfree⟩
  simpa [SharedPage.goTo] using hread

/-- Session 0 has found the page blank, session 1 has opened it and inserted a row. -/
theorem late_state : ∃ s, ((pageOpening oneColumn).restrict SharedPage.Timely).Reachable s ∧
    s.openings 0 = .blank ∧ s.stored ≠ [] := by
  have hinit : SharedPage.Untouched ⟨⟨⟨⟨3⟩, 0⟩, fun _ => 0, 1, true, false⟩, fun _ => .away, []⟩ :=
    ⟨rfl, ⟨by decide, by decide⟩, rfl, rfl⟩
  have hzero := @late_blank oneColumn _ 0 (.init hinit) hinit.blank rfl
  have hone := @late_blank _ _ 1 hzero (hinit.blank.goTo 0 (by decide)) rfl
  have hcount := (SharedPage.inv_of_reachable hone).dirCount_eq
  have hwritten := hone.step (l := (1, PageEvent.writeFreeSpace))
    ⟨hcount, .writeFreeSpace rfl (SharedPage.setFreeSpace_initial _)⟩
  have hinv := SharedPage.inv_of_reachable hwritten
  have hpacked := hinv.page.resolve_left fun hblank => hblank.openings 1 rfl
  have hlegal := insert_legal 7 (by norm_num [Value.Fits]) []
  have hsize : valuesSize (Record.mk [.int 7]).values + 36 < 2 ^ 31 := by decide
  rcases hpacked.insert hinv.number hlegal hsize with ⟨hfull, _⟩ | ⟨page', hinsert, _⟩
  · exact absurd hfull (by decide)
  · have hinserted := hwritten.step (l := (1, PageEvent.insert ⟨[.int 7]⟩ 1 none))
      ⟨hsize, .insert rfl hlegal hinsert⟩
    exact ⟨_, hinserted, rfl, by simp⟩

/-- The tuples of a page whose constructors were in time. -/
theorem initialised_once_inserted : ∃ s : SharedPage, s.stored ≠ [] ∧ s.Kept oneColumn := by
  obtain ⟨s, hs, _, hne⟩ := late_state
  exact ⟨s, hne, (initialised_once hs).1 hne⟩

/-- A session that read the counters before the first insert writes `free_space` after it. -/
theorem free_space_lost :
    ¬ ∀ s, (pageOpening oneColumn).Reachable s → s.stored ≠ [] → s.Kept oneColumn := by
  intro hall
  obtain ⟨s, hs, hblank, hne⟩ := late_state
  have hwrite := @SharedPage.Step.writeFreeSpace oneColumn _ _ _ hblank
    (SharedPage.setFreeSpace_initial _)
  exact hne (SharedPage.late_write hwrite (hall _ (hs.of_restrict.step hwrite) hne))

end Iic3413Db.Storage
