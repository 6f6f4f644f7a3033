/-
  Storage/HeapFile/HeapStore.lean --- a heap file between the buffer frames and
  the disk.

  The frames and the file are kept apart here, since `delete_page` drops a frame
  without writing it.  `victims` says which page of the file, if any, the clock
  takes at each miss.  A page that some object still refers to is looked up again
  at each use, which finds it in its frame when `victims` spares the pinned pages,
  as the clock does.

  `view` is the file a reader sees, the bytes of the frame where a page has one.
  Evictions do not change it.
-/
import Iic3413Db.Storage.HeapFile.HeapFileSlots

set_option autoImplicit false

namespace Iic3413Db.Storage

open Iic3413Db.Foundation Iic3413Db.RelationalModel HeapFilePage

/-- `class HeapFile`, with what `buffer_mgr` and `file_mgr` hold of its file. -/
structure HeapStore where
  schema : Schema
  fileId : FileId
  frames : Nat → Option Page
  disk : Nat → PageBytes
  /-- `file_mgr.count_pages` -/
  pageCount : Nat
  lastInsertPage : Nat
  victims : Nat → Option Nat
  misses : Nat

namespace HeapStore

/-- The bytes `get_page` shows. -/
def bytesOf (s : HeapStore) (n : Nat) : PageBytes :=
  match s.frames n with
  | some p => p.bytes
  | none => s.disk n

/-- A page just read into a frame. -/
def pageOf (s : HeapStore) (n : Nat) (bytes : PageBytes) : Page :=
  ⟨⟨s.fileId, n⟩, bytes, 1, true, false⟩

/-- What a reader sees. -/
def view (s : HeapStore) : HeapFile :=
  ⟨s.schema, fun n => s.pageOf n (s.bytesOf n), s.pageCount, s.lastInsertPage⟩

/-- A frame given to another page, after `flush` if it is dirty. -/
def evict (s : HeapStore) (n : Nat) : HeapStore :=
  match s.frames n with
  | none => s
  | some p =>
      if p.dirty then
        { s with frames := Function.update s.frames n none, disk := Function.update s.disk n p.bytes,
                 pageCount := max s.pageCount (n + 1) }
      else { s with frames := Function.update s.frames n none }

/-- What a miss does to the other pages of the file. -/
def takeVictim (s : HeapStore) : HeapStore :=
  match s.victims s.misses with
  | none => { s with misses := s.misses + 1 }
  | some n => { s.evict n with misses := s.misses + 1 }

/-- Store back the frame of page `n`. -/
def put (s : HeapStore) (n : Nat) (page : Page) : HeapStore :=
  { s with frames := Function.update s.frames n (some page) }

/-- `buffer_mgr.get_page(file_id, n)`. -/
def getPage (s : HeapStore) (n : Nat) : Outcome (Page × HeapStore) :=
  match s.frames n with
  | some page => .ok (page, s)
  | none =>
      let s := s.takeVictim
      if s.pageCount ≤ n then
        -- new file page
        if 2 ^ 31 ≤ 4096 * (n + 1) then .error (.runtimeError "Could not write into file")
        else
          let page := s.pageOf n fun _ => 0
          .ok (page, { s.put n page with pageCount := n + 1 })
      else
        let page := s.pageOf n (s.disk n)
        .ok (page, s.put n page)

/-- `HeapFilePage(*this, page_number)`. -/
def openPage (s : HeapStore) (pageNumber : Int) : Outcome (Page × HeapStore) :=
  if pageNumber < 0 then .error (.undefinedBehaviour "page number below zero")
  else do
    let (page, s) ← s.getPage pageNumber.toNat
    let page ← construct page
    .ok (page, s.put pageNumber.toNat page)

/-- `buffer_mgr.delete_page(file_id, n)`. -/
def deletePage (s : HeapStore) (n : Nat) : HeapStore :=
  { s with frames := Function.update s.frames n none }

/-- `file_mgr.truncate_file(file_id, pages)`. -/
def truncateFile (s : HeapStore) (pages : Nat) : HeapStore :=
  { s with pageCount := pages, disk := fun n => if n < pages then s.disk n else fun _ => 0 }

/-! ## Coherence -/

/-- A frame holds a page of the file, and its bytes are those on disk unless it
is dirty; past the end the file is zero. -/
structure Coherent (s : HeapStore) : Prop where
  frame : ∀ n p, s.frames n = some p →
    p.pageId = ⟨s.fileId, n⟩ ∧ n < s.pageCount ∧ (p.dirty = false → p.bytes = s.disk n)
  beyond : ∀ n, s.pageCount ≤ n → s.disk n = fun _ => 0

/-- `s'` is `s` with page `n` in its frame, showing `bytes`; other pages may have
left theirs. -/
structure Shows (s s' : HeapStore) (n : Nat) (bytes : PageBytes) : Prop where
  coherent : s'.Coherent
  schema : s'.schema = s.schema
  fileId : s'.fileId = s.fileId
  lastInsertPage : s'.lastInsertPage = s.lastInsertPage
  victims : s'.victims = s.victims
  count : s'.pageCount = max s.pageCount (n + 1)
  bytes : ∀ m, s'.bytesOf m = if m = n then bytes else s.bytesOf m
  frames : ∀ m, m ≠ n → s.frames m = none → s'.frames m = none
  frame : ∃ p, s'.frames n = some p
  beyond : ∀ m, s.pageCount ≤ m → s'.disk m = fun _ => 0
  disk : (∀ i, s.victims i = none) → s'.disk = s.disk

section Coherence

variable {s s' s'' : HeapStore} {n : Nat}

theorem Coherent.bytesOf_beyond (hc : s.Coherent) (hn : s.pageCount ≤ n) :
    s.bytesOf n = fun _ => 0 := by
  unfold bytesOf
  split
  · rename_i p hp
    exact absurd (hc.frame n p hp).2.1 (Nat.not_lt.mpr hn)
  · exact hc.beyond n hn

/-- Evicting a page changes no byte a reader sees. -/
theorem Coherent.evict (hc : s.Coherent) (n : Nat) :
    (s.evict n).Coherent ∧ (s.evict n).pageCount = s.pageCount ∧
      (s.evict n).bytesOf = s.bytesOf ∧
      ∀ m, s.frames m = none → (s.evict n).frames m = none := by
  unfold HeapStore.evict
  split
  · exact ⟨hc, rfl, rfl, fun _ h => h⟩
  · rename_i p hp
    obtain ⟨_, hlt, hclean⟩ := hc.frame n p hp
    have hframes : ∀ m, s.frames m = none → Function.update s.frames n none m = none := by
      intro m hm
      by_cases hmn : m = n
      · rw [hmn, Function.update_self]
      · rw [Function.update_of_ne hmn, hm]
    have hsome : ∀ m q, Function.update s.frames n none m = some q →
        m ≠ n ∧ s.frames m = some q := by
      intro m q hq
      by_cases hmn : m = n
      · rw [hmn, Function.update_self] at hq
        cases hq
      · rw [Function.update_of_ne hmn] at hq
        exact ⟨hmn, hq⟩
    split
    · refine ⟨⟨fun m q hq => ?_, fun m hm => ?_⟩, max_eq_left hlt, ?_, hframes⟩
      · obtain ⟨hmn, hq⟩ := hsome m q hq
        obtain ⟨hid, hm, hbytes⟩ := hc.frame m q hq
        refine ⟨hid, lt_max_of_lt_left hm, fun hdirty => ?_⟩
        exact (hbytes hdirty).trans (Function.update_of_ne hmn _ _).symm
      · have hm : s.pageCount ≤ m := le_trans (Nat.le_max_left ..) hm
        have hmn : m ≠ n := by omega
        exact (Function.update_of_ne hmn _ _).trans (hc.beyond m hm)
      · funext m
        by_cases hmn : m = n
        · subst hmn
          simp [HeapStore.bytesOf, hp]
        · simp [HeapStore.bytesOf, hmn]
    · rename_i hdirty
      refine ⟨⟨fun m q hq => hc.frame m q (hsome m q hq).2, hc.beyond⟩, rfl, ?_, hframes⟩
      funext m
      by_cases hmn : m = n
      · subst hmn
        simp [HeapStore.bytesOf, hp, hclean (Bool.eq_false_iff.mpr hdirty)]
      · simp [HeapStore.bytesOf, hmn]

theorem evict_same (s : HeapStore) (n : Nat) :
    (s.evict n).schema = s.schema ∧ (s.evict n).fileId = s.fileId ∧
      (s.evict n).lastInsertPage = s.lastInsertPage ∧ (s.evict n).victims = s.victims := by
  unfold HeapStore.evict
  split
  · exact ⟨rfl, rfl, rfl, rfl⟩
  · split
    · exact ⟨rfl, rfl, rfl, rfl⟩
    · exact ⟨rfl, rfl, rfl, rfl⟩

/-- Every later eviction of the pages of a list. -/
theorem Coherent.evictAll (hc : s.Coherent) (pages : List Nat) :
    (pages.foldl HeapStore.evict s).Coherent ∧ (pages.foldl HeapStore.evict s).view = s.view := by
  induction pages generalizing s with
  | nil => exact ⟨hc, rfl⟩
  | cons n pages ih =>
      obtain ⟨hc', hcount, hbytes, _⟩ := hc.evict n
      obtain ⟨hschema, hfile, hlast, _⟩ := evict_same s n
      obtain ⟨hrest, hview⟩ := ih hc'
      refine ⟨hrest, hview.trans ?_⟩
      unfold view pageOf
      rw [hschema, hfile, hlast, hcount, hbytes]

theorem Coherent.takeVictim (hc : s.Coherent) :
    s.takeVictim.Coherent ∧ s.takeVictim.pageCount = s.pageCount ∧
      s.takeVictim.bytesOf = s.bytesOf ∧
      ∀ m, s.frames m = none → s.takeVictim.frames m = none := by
  unfold HeapStore.takeVictim
  split
  · exact ⟨⟨hc.frame, hc.beyond⟩, rfl, rfl, fun _ h => h⟩
  · rename_i n _
    obtain ⟨hc', hcount, hbytes, hframes⟩ := hc.evict n
    exact ⟨⟨hc'.frame, hc'.beyond⟩, hcount, hbytes, hframes⟩

theorem takeVictim_same (s : HeapStore) :
    s.takeVictim.schema = s.schema ∧ s.takeVictim.fileId = s.fileId ∧
      s.takeVictim.lastInsertPage = s.lastInsertPage ∧ s.takeVictim.victims = s.victims ∧
      ((∀ i, s.victims i = none) → s.takeVictim.disk = s.disk) := by
  unfold HeapStore.takeVictim
  split
  · exact ⟨rfl, rfl, rfl, rfl, fun _ => rfl⟩
  · rename_i n hn
    obtain ⟨hschema, hfile, hlast, hvictims⟩ := evict_same s n
    refine ⟨hschema, hfile, hlast, hvictims, fun hnone => ?_⟩
    rw [hnone] at hn
    cases hn

theorem put_bytesOf (s : HeapStore) (n : Nat) (q : Page) (m : Nat) :
    (s.put n q).bytesOf m = if m = n then q.bytes else s.bytesOf m := by
  by_cases hmn : m = n
  · subst hmn
    simp [HeapStore.bytesOf, put]
  · simp [HeapStore.bytesOf, put, hmn]

theorem put_frames (s : HeapStore) (n : Nat) (q : Page) (m : Nat) :
    (s.put n q).frames m = if m = n then some q else s.frames m := by
  by_cases hmn : m = n
  · subst hmn
    simp [put]
  · simp [put, hmn]

/-- A frame filled in, in a file that reaches it. -/
theorem Coherent.put (hc : s.Coherent) {q : Page} (hn : n < s.pageCount)
    (hid : q.pageId = ⟨s.fileId, n⟩) (hclean : q.dirty = false → q.bytes = s.disk n) :
    (s.put n q).Coherent := by
  refine ⟨fun m p hp => ?_, hc.beyond⟩
  rw [put_frames] at hp
  split at hp
  · rename_i hmn
    obtain rfl := Option.some.inj hp
    rw [hmn]
    exact ⟨hid, hn, hclean⟩
  · exact hc.frame m p hp

/-- A page that has its frame. -/
theorem Coherent.shows_self (hc : s.Coherent) {p : Page} (hframe : s.frames n = some p) :
    Shows s s n (s.bytesOf n) := by
  obtain ⟨_, hlt, _⟩ := hc.frame n p hframe
  refine ⟨hc, rfl, rfl, rfl, rfl, (max_eq_left hlt).symm, fun m => ?_, fun _ _ h => h,
    ⟨p, hframe⟩, hc.beyond, fun _ => rfl⟩
  split
  · rename_i hmn
    rw [hmn]
  · rfl

/-- `get_page` of a page of the file, or of the first page after it. -/
theorem Coherent.getPage (hc : s.Coherent) (hn : n ≤ s.pageCount)
    (hroom : 4096 * (n + 1) < 2 ^ 31) :
    ∃ p s', s.getPage n = .ok (p, s') ∧ p.bytes = s.bytesOf n ∧ p.pageId = ⟨s.fileId, n⟩ ∧
      s'.frames n = some p ∧ Shows s s' n (s.bytesOf n) := by
  unfold HeapStore.getPage
  cases hframe : s.frames n with
  | some p =>
      obtain ⟨hid, _⟩ := hc.frame n p hframe
      have hbytes : p.bytes = s.bytesOf n := by simp only [HeapStore.bytesOf, hframe]
      exact ⟨p, s, rfl, hbytes, hid, hframe, hc.shows_self hframe⟩
  | none =>
      obtain ⟨hc', hcount, hbytes, hframes⟩ := hc.takeVictim
      obtain ⟨hschema, hfile, hlast, hvictims, hdisk⟩ := takeVictim_same s
      have hnone : s.takeVictim.frames n = none := hframes n hframe
      have hread : s.takeVictim.disk n = s.bytesOf n := by
        rw [← hbytes, HeapStore.bytesOf, hnone]
      have hbeyond : ∀ m, s.pageCount ≤ m → s.takeVictim.disk m = fun _ => 0 :=
        fun m hm => hc'.beyond m (by rw [hcount]; exact hm)
      have hput : ∀ (q : Page) (m : Nat), q.bytes = s.bytesOf n →
          (s.takeVictim.put n q).bytesOf m = if m = n then s.bytesOf n else s.bytesOf m := by
        intro q m hq
        rw [put_bytesOf, hq, hbytes]
      have hother : ∀ (q : Page) (m : Nat), m ≠ n → s.frames m = none →
          (s.takeVictim.put n q).frames m = none := fun q m hmn hm =>
        (Function.update_of_ne hmn _ _).trans (hframes m hm)
      dsimp only
      rw [hcount]
      split
      · rename_i hge
        obtain rfl : n = s.pageCount := Nat.le_antisymm hn hge
        have hzero : s.bytesOf s.pageCount = fun _ => 0 := hc.bytesOf_beyond le_rfl
        rw [if_neg (Nat.not_le.mpr hroom)]
        refine ⟨_, _, rfl, hzero.symm, by rw [pageOf, hfile], Function.update_self .., ?_⟩
        refine ⟨⟨fun m p hp => ?_, fun m hm => ?_⟩, hschema, hfile, hlast, hvictims, ?_,
          fun m => hput _ m hzero.symm, fun m hmn hm => hother _ m hmn hm,
          ⟨_, Function.update_self ..⟩, hbeyond, hdisk⟩
        · have hp : (s.takeVictim.put _ _).frames m = some p := hp
          rw [put_frames] at hp
          split at hp
          · rename_i hmn
            obtain rfl := Option.some.inj hp
            rw [hmn]
            exact ⟨rfl, Nat.lt_succ_self _, fun _ => hzero.symm.trans hread.symm⟩
          · obtain ⟨hid, hlt, hclean⟩ := hc'.frame m p hp
            rw [hcount] at hlt
            exact ⟨hid, Nat.lt_succ_of_lt hlt, hclean⟩
        · have hm : s.pageCount + 1 ≤ m := hm
          exact hbeyond m (by omega)
        · show s.pageCount + 1 = max s.pageCount (s.pageCount + 1)
          omega
      · rename_i hlt
        have hlt : n < s.pageCount := Nat.not_le.mp hlt
        have hlt' : n < s.takeVictim.pageCount := by rw [hcount]; exact hlt
        have hid : (s.takeVictim.pageOf n (s.takeVictim.disk n)).pageId = ⟨s.fileId, n⟩ := by
          rw [pageOf, hfile]
        refine ⟨_, _, rfl, hread, hid, Function.update_self .., ?_⟩
        refine ⟨hc'.put hlt' rfl fun _ => rfl, hschema, hfile, hlast, hvictims, ?_,
          fun m => hput _ m hread, fun m hmn hm => hother _ m hmn hm,
          ⟨_, Function.update_self ..⟩, hbeyond, hdisk⟩
        show s.takeVictim.pageCount = max s.pageCount (n + 1)
        omega

/-- A dirty page stored back. -/
theorem Shows.put {bytes : PageBytes} (h : Shows s s' n bytes) {q : Page}
    (hid : q.pageId = ⟨s.fileId, n⟩) (hdirty : q.dirty = true) :
    Shows s (s'.put n q) n q.bytes := by
  have hlt : n < s'.pageCount := by rw [h.count]; omega
  have hclean : q.dirty = false → q.bytes = s'.disk n := by
    rw [hdirty]
    exact fun hfalse => nomatch hfalse
  refine ⟨h.coherent.put hlt (by rw [h.fileId]; exact hid) hclean, h.schema, h.fileId,
    h.lastInsertPage, h.victims, h.count, fun m => ?_, fun m hmn hm => ?_,
    ⟨q, Function.update_self ..⟩, h.beyond, h.disk⟩
  · rw [put_bytesOf, h.bytes]
    split
    · rfl
    · rfl
  · exact (Function.update_of_ne hmn _ _).trans (h.frames m hmn hm)

theorem Shows.pages {bytes : PageBytes} (h : Shows s s' n bytes) {m : Nat} (hm : m ≠ n) :
    s'.view.pages m = s.view.pages m := by
  simp only [view, pageOf, h.bytes, if_neg hm, h.fileId]

theorem Shows.page {bytes : PageBytes} (h : Shows s s' n bytes) :
    s'.view.pages n = s.pageOf n bytes := by
  simp only [view, pageOf, h.bytes, if_true, h.fileId]

theorem Shows.contentsOf {bytes : PageBytes} (h : Shows s s' n bytes) {m : Nat} (hm : m ≠ n) :
    s'.view.contentsOf m = s.view.contentsOf m := by
  have hschema : s'.view.schema = s.view.schema := h.schema
  rw [HeapFile.contentsOf, HeapFile.contentsOf, h.pages hm, hschema]

/-! ## Opening a page -/

theorem laid_of_bytes {schema : Schema} {p q : Page} {c : Contents} (h : Laid schema p c)
    (hbytes : q.bytes = p.bytes) : Laid schema q c := by
  obtain ⟨sp, hr, hc, hopen⟩ := h
  have hr' : Represents sp q := by
    refine ⟨?_, ?_, ?_⟩
    · exact hbytes ▸ hr.count
    · exact hbytes ▸ hr.free
    · exact hbytes ▸ hr.slot
  exact ⟨sp, hr', hc, hopen⟩

/-- A page the constructor leaves as it is. -/
theorem Coherent.openPage_same (hc : s.Coherent) (hn : n < s.pageCount)
    (hbound : 4096 * s.pageCount < 2 ^ 31)
    (hconstruct : ∀ p : Page, p.bytes = s.bytesOf n → construct p = .ok p) :
    ∃ p s', s.openPage n = .ok (p, s') ∧ p.pageId = ⟨s.fileId, n⟩ ∧ p.bytes = s.bytesOf n ∧
      Shows s s' n (s.bytesOf n) := by
  obtain ⟨p, s', hget, hbytes, hid, hframe, hshows⟩ := hc.getPage (Nat.le_of_lt hn) (by omega)
  have hsame : s'.put n p = s' := by
    unfold HeapStore.put
    rw [← hframe, Function.update_eq_self]
  refine ⟨p, s', ?_, hid, hbytes, hshows⟩
  simp only [HeapStore.openPage, if_neg (Int.not_lt.mpr (Int.natCast_nonneg n)), Int.toNat_natCast,
    hget, Outcome.ok_bind, hconstruct p hbytes, hsame]

/-- A page that lays out slots is one of these. -/
theorem Coherent.openPage_laid (hc : s.Coherent) {c : Contents} (hn : n < s.pageCount)
    (hbound : 4096 * s.pageCount < 2 ^ 31) (hlaid : Laid s.schema (s.view.pages n) c) :
    ∃ p s', s.openPage n = .ok (p, s') ∧ p.pageId = ⟨s.fileId, n⟩ ∧ Laid s.schema p c ∧
      Shows s s' n (s.bytesOf n) ∧ p.bytes = s.bytesOf n := by
  have hpage : ∀ p : Page, p.bytes = s.bytesOf n → Laid s.schema p c :=
    fun p hbytes => laid_of_bytes hlaid hbytes
  obtain ⟨p, s', hopen, hid, hbytes, hshows⟩ :=
    hc.openPage_same hn hbound fun p hbytes => (hpage p hbytes).construct_eq
  exact ⟨p, s', hopen, hid, hpage p hbytes, hshows, hbytes⟩

/-- A page of zeros is made one without slots, also when it is new to the file. -/
theorem Coherent.openPage_blank (hc : s.Coherent) (hn : n ≤ s.pageCount)
    (hroom : 4096 * (n + 1) < 2 ^ 31) (hblank : s.bytesOf n = fun _ => 0) :
    ∃ p s', s.openPage n = .ok (p, s') ∧ p.pageId = ⟨s.fileId, n⟩ ∧ Laid s.schema p [] ∧
      Shows s s' n p.bytes := by
  obtain ⟨p, s', hget, hbytes, hid, hframe, hshows⟩ := hc.getPage hn hroom
  have hzero : Blank p := hbytes.trans hblank
  obtain ⟨q, hq, _, hlaid⟩ := hzero.construct_laid s.schema
  have hconstruct := construct_zero hzero
  have heq : q = p.patch 4 (intBytes 4 4088) := Except.ok.inj (hq.symm.trans hconstruct)
  have hqid : q.pageId = ⟨s.fileId, n⟩ := by rw [heq, Page.patch_pageId, hid]
  have hdirty : q.dirty = true := by rw [heq]; rfl
  refine ⟨q, s'.put n q, ?_, hqid, hlaid, hshows.put hqid hdirty⟩
  simp only [HeapStore.openPage, if_neg (Int.not_lt.mpr (Int.natCast_nonneg n)), Int.toNat_natCast,
    hget, Outcome.ok_bind, hq]

/-- The file cannot grow to `2 ^ 31` bytes. -/
theorem Coherent.openPage_full (hc : s.Coherent) (hfull : 2 ^ 31 ≤ 4096 * (s.pageCount + 1)) :
    s.openPage s.pageCount = .error (.runtimeError "Could not write into file") := by
  have hnone : s.frames s.pageCount = none := by
    cases hframe : s.frames s.pageCount with
    | none => rfl
    | some p => exact absurd (hc.frame _ p hframe).2.1 (lt_irrefl _)
  have hcount := hc.takeVictim.2.1
  have hget : s.getPage s.pageCount = .error (.runtimeError "Could not write into file") := by
    simp only [HeapStore.getPage, hnone, hcount, le_refl, if_true, if_pos hfull]
  simp only [HeapStore.openPage, if_neg (Int.not_lt.mpr (Int.natCast_nonneg s.pageCount)),
    Int.toNat_natCast, hget, Outcome.error_bind]

end Coherence

end HeapStore

end Iic3413Db.Storage
