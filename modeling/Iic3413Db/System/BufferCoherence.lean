/-
  System/BufferCoherence.lean --- the buffer pool as a map from pages to bytes.

  A client of the pool holds `Page&` references.  `Handle` is one of them with
  the page it was asked for, and `Pool` is the pool, the disk and the handles
  outstanding.  The abstract model is a `Store`, one block of bytes for each page
  of each file; of the four requests only a write changes it.

  `Coherent store s` is the abstraction relation.  It spans three places a byte
  can live in: the frame, if the page has one; the disk, if the frame is clean or
  the page has no frame; nowhere but the frame, if the frame is dirty.
-/
import Iic3413Db.Foundation.Machine
import Iic3413Db.System.BufferClock

set_option autoImplicit false

namespace Iic3413Db.System

open Iic3413Db.Foundation Iic3413Db.Storage

/-- A `Page&` returned by `get_page`, with the page it was returned for. -/
structure Handle where
  pageId : PageId
  frame : Nat
  deriving DecidableEq, Repr

/-- The pool, the disk under it and the handles not yet unpinned. -/
structure Pool where
  manager : BufferManager
  disk : Disk
  handles : List Handle

/-- What a client can do with the pool. -/
inductive Request where
  | getPage (pageId : PageId)
  | write (h : Handle) (offset : Int) (data : List UInt8)
  | unpin (h : Handle)
  | flush

/-- The contents of every page: the abstract state. -/
abbrev Store : Type := PageId → PageBytes

/-- Only a write changes the contents of a page, and only of its own. -/
def Store.apply (store : Store) : Request → Store
  | .write h offset data =>
      Function.update store h.pageId ((store h.pageId).splice offset.toNat data)
  | .getPage _ | .unpin _ | .flush => store

/-- A miss whose system calls succeed: the victim leaves the map, is written back
if dirty, and comes back pinned once, with the bytes that were read. -/
theorem BufferManager.getPage_miss {io : Io} {bm bm' : BufferManager} {disk disk₂ disk₃ : Disk}
    {pageId : PageId} {f : Page} {bytes : PageBytes} (hnone : bm.pageMap pageId = none)
    (hbm : bm.getUnusedPage = some bm') (hf : bm'.frames[bm'.clock]? = some f)
    (hflush : (if f.dirty then System.flush io f disk else (.ok f, disk)) =
      (.ok { f with dirty := false }, disk₂))
    (hpins : f.pins = 0) (hchance : f.secondChance = false)
    (hread : readPage io pageId f.bytes disk₂ = (.ok (), bytes, disk₃)) :
    bm.getPage io disk pageId =
      (.ok bm'.clock,
        { clock := bm'.clock
          frames := bm'.frames.set bm'.clock ⟨pageId, bytes, 1, true, false⟩
          pageMap := PageMap.insert (if f.pageId.fileId ≠ FileId.unassigned
            then bm'.pageMap.erase f.pageId else bm'.pageMap) pageId bm'.clock }, disk₃) := by
  have hreassign : Page.reassign { f with dirty := false } pageId =
      .ok { f with dirty := false, pageId := pageId, pins := 1, secondChance := true } :=
    Page.reassign_ok_iff.mpr ⟨⟨rfl, hpins, hchance⟩, rfl⟩
  simp only [getPage, hnone, hbm, hf, hflush, hreassign, evict_clock, hread, setFrame, evict_frames,
    evict_pageMap]

namespace Pool

/-- Update the frame a handle refers to. -/
def onFrame (s : Pool) (h : Handle) (f : Page → Outcome Page) : Outcome BufferManager :=
  match s.manager.frames[h.frame]? with
  | none => .error (.undefinedBehaviour "handle outside the frames")
  | some page =>
      match f page with
      | .error fault => .error fault
      | .ok page => .ok (s.manager.setFrame h.frame page)

/-- Serve a request.  A call that throws hands out no handle, and what it did
before it threw stays done. -/
def execIo (io : Io) (s : Pool) : Request → Outcome Unit × Pool
  | .getPage pageId =>
      match s.manager.getPage io s.disk pageId with
      | (.error fault, manager, disk) => (.error fault, { s with manager := manager, disk := disk })
      | (.ok i, manager, disk) => (.ok (), ⟨manager, disk, ⟨pageId, i⟩ :: s.handles⟩)
  | .write h offset data =>
      match s.onFrame h (·.write offset data) with
      | .error fault => (.error fault, s)
      | .ok manager => (.ok (), { s with manager := manager })
  | .unpin h =>
      match s.onFrame h Page.unpin with
      | .error fault => (.error fault, s)
      | .ok manager => (.ok (), { s with manager := manager, handles := s.handles.erase h })
  | .flush =>
      match s.manager.flush io s.disk with
      | (result, manager, disk) => (result, { s with manager := manager, disk := disk })

/-- Serve a request, with system calls that succeed. -/
def exec (s : Pool) (r : Request) : Outcome Pool :=
  match s.execIo Io.ok r with
  | (.error fault, _) => .error fault
  | (.ok (), s') => .ok s'

/-- The requests a client may make: pages of open files whose byte offset fits in
31 bits, with a frame to spare when the page is not buffered; writes and unpins
through handles it holds; a flush only while nothing is pinned. -/
def Legal (s : Pool) : Request → Prop
  | .getPage pageId =>
      pageId.fileId ≠ FileId.unassigned ∧ OffsetFits pageId ∧
        (s.manager.pageMap pageId = none → ∃ f ∈ s.manager.frames, f.pins = 0)
  | .write h offset data => h ∈ s.handles ∧ Page.InBounds offset data.length
  | .unpin h => h ∈ s.handles
  | .flush => ∀ f ∈ s.manager.frames, f.pins = 0

/-- Where the `int` arithmetic of the source is exact: the length `ftruncate` is
given, and the pin count of the page. -/
def NoWrap (s : Pool) : Request → Prop
  | .getPage pageId =>
      EndFits s.disk pageId ∧ (s.handles.countP (·.pageId = pageId) : Int) + 1 < 2 ^ 31
  | .write _ _ _ | .unpin _ | .flush => True

/-- A pool just constructed over a disk of whole pages. -/
def Fresh (s : Pool) : Prop :=
  (∃ data : List PageBytes, data ≠ [] ∧ s.manager = BufferManager.create data) ∧
    s.disk.Paged ∧ s.handles = []

/-- One frame against the store: an unassigned frame is clean; an assigned one
has the page's bytes, and if it is clean the disk has them too. -/
structure FrameOk (store : Store) (disk : Disk) (f : Page) : Prop where
  idle : f.pageId.fileId = FileId.unassigned → f.dirty = false
  fits : f.pageId.fileId ≠ FileId.unassigned → OffsetFits f.pageId
  bytes : f.pageId.fileId ≠ FileId.unassigned → f.bytes = store f.pageId
  clean : f.pageId.fileId ≠ FileId.unassigned → f.dirty = false →
    disk.pageOf f.pageId = store f.pageId

/-- The pool refines the store. -/
structure Coherent (store : Store) (s : Pool) : Prop where
  clock : s.manager.clock < s.manager.frames.length
  paged : s.disk.Paged
  /-- `page_map` maps exactly the assigned frames, one frame per page -/
  mapped : ∀ (pageId : PageId) (i : Nat), s.manager.pageMap pageId = some i ↔
    ∃ f, s.manager.frames[i]? = some f ∧ f.pageId = pageId ∧ pageId.fileId ≠ FileId.unassigned
  frame : ∀ (i : Nat) (f : Page), s.manager.frames[i]? = some f → FrameOk store s.disk f
  unmapped : ∀ pageId, 0 ≤ pageId.pageNumber → s.manager.pageMap pageId = none →
    s.disk.pageOf pageId = store pageId
  /-- a frame is not reassigned while a handle to it is held -/
  handle : ∀ h ∈ s.handles, s.manager.pageMap h.pageId = some h.frame
  pins : ∀ (i : Nat) (f : Page), s.manager.frames[i]? = some f →
    f.pins = (s.handles.countP (·.frame = i) : Int)

/-! ## Frames of a coherent pool -/

theorem FrameOk.sameButChance {store : Store} {disk : Disk} {f g : Page}
    (h : FrameOk store disk f) (hfg : BufferManager.SameButChance f g) :
    FrameOk store disk g := by
  unfold BufferManager.SameButChance at hfg
  rw [hfg]
  exact ⟨h.idle, h.fits, h.bytes, h.clean⟩

section Coherence

variable {store : Store} {s : Pool}

/-- The frame behind a handle holds the handle's page and the store's bytes. -/
theorem Coherent.frame_of_handle (hc : Coherent store s) {h : Handle} (hh : h ∈ s.handles) :
    ∃ f, s.manager.frames[h.frame]? = some f ∧ f.pageId = h.pageId ∧
      h.pageId.fileId ≠ FileId.unassigned ∧ 0 < f.pins ∧ f.bytes = store h.pageId := by
  obtain ⟨f, hf, hpage, hassigned⟩ := (hc.mapped _ _).mp (hc.handle h hh)
  refine ⟨f, hf, hpage, hassigned, ?_, ?_⟩
  · rw [hc.pins _ f hf]
    have hpos : 0 < s.handles.countP (·.frame = h.frame) :=
      List.countP_pos_iff.mpr ⟨h, hh, by simp⟩
    exact_mod_cast hpos
  · rw [← hpage]
    exact (hc.frame _ f hf).bytes (by rw [hpage]; exact hassigned)

/-- Two assigned frames with one page are one frame. -/
theorem Coherent.frame_unique (hc : Coherent store s) {i j : Nat} {f g : Page}
    (hf : s.manager.frames[i]? = some f) (hg : s.manager.frames[j]? = some g)
    (hassigned : f.pageId.fileId ≠ FileId.unassigned) (hpage : g.pageId = f.pageId) : i = j := by
  have hi := (hc.mapped f.pageId i).mpr ⟨f, hf, rfl, hassigned⟩
  have hj := (hc.mapped f.pageId j).mpr ⟨g, hg, hpage, hassigned⟩
  exact Option.some.inj (hi.symm.trans hj)

/-- The handles on a page's frame are the handles on the page. -/
theorem Coherent.countP_frame (hc : Coherent store s) {pageId : PageId} {i : Nat}
    (hi : s.manager.pageMap pageId = some i) :
    s.handles.countP (·.frame = i) = s.handles.countP (·.pageId = pageId) := by
  apply List.countP_congr
  intro h hh
  obtain ⟨f, hf, hpage, _⟩ := (hc.mapped _ _).mp hi
  obtain ⟨g, hg, hpage', _⟩ := (hc.mapped _ _).mp (hc.handle h hh)
  simp only [decide_eq_true_eq]
  constructor
  · intro heq
    rw [heq, hf] at hg
    cases hg
    exact hpage'.symm.trans hpage
  · intro heq
    have hsome := hc.handle h hh
    rw [heq, hi] at hsome
    exact (Option.some.inj hsome).symm

/-- A sweep of the clock keeps coherence. -/
theorem Coherent.swept (hc : Coherent store s) {bm : BufferManager}
    (hsw : BufferManager.Swept s.manager bm) (hclock : bm.clock < bm.frames.length) :
    Coherent store { s with manager := bm } where
  clock := hclock
  paged := hc.paged
  mapped pageId i := by
    rw [hsw.pageMap, hc.mapped]
    constructor
    · rintro ⟨f, hf, hpage, hassigned⟩
      obtain ⟨hi, hget⟩ := List.getElem?_eq_some_iff.mp hf
      have hi' : i < bm.frames.length := by rw [hsw.length]; exact hi
      have hsame : bm.frames[i] =
          { s.manager.frames[i] with secondChance := bm.frames[i].secondChance } :=
        hsw.frames.get hi hi'
      refine ⟨bm.frames[i], List.getElem?_eq_getElem hi', ?_, hassigned⟩
      rw [← hpage, ← hget, hsame]
    · rintro ⟨g, hg, hpage, hassigned⟩
      obtain ⟨f, hf, hsame⟩ := hsw.getElem? hg
      exact ⟨f, hf, by rw [← hpage, hsame], hassigned⟩
  frame i g hg := by
    obtain ⟨f, hf, hsame⟩ := hsw.getElem? hg
    exact (hc.frame i f hf).sameButChance hsame
  unmapped pageId hpos hnone := by
    rw [hsw.pageMap] at hnone
    exact hc.unmapped pageId hpos hnone
  handle h hh := by
    rw [hsw.pageMap]
    exact hc.handle h hh
  pins i g hg := by
    obtain ⟨f, hf, hsame⟩ := hsw.getElem? hg
    rw [hsame]
    exact hc.pins i f hf

/-- Replace the frame of one page by another state of the same page, possibly
with new contents and other handles. -/
theorem Coherent.replace (hc : Coherent store s) {c : Nat} {f g : Page} {store' : Store}
    {handles' : List Handle}
    (hf : s.manager.frames[c]? = some f) (hpage : g.pageId = f.pageId)
    (hok : FrameOk store' s.disk g)
    (hstore : ∀ pageId, pageId ≠ f.pageId → store' pageId = store pageId)
    (hassigned : f.pageId.fileId ≠ FileId.unassigned)
    (hhandle : ∀ h ∈ handles', s.manager.pageMap h.pageId = some h.frame)
    (hpins : g.pins = (handles'.countP (·.frame = c) : Int))
    (hother : ∀ i, i ≠ c →
      handles'.countP (·.frame = i) = s.handles.countP (·.frame = i)) :
    Coherent store' ⟨s.manager.setFrame c g, s.disk, handles'⟩ where
  clock := by rw [BufferManager.setFrame_length]; exact hc.clock
  paged := hc.paged
  mapped pageId i := by
    obtain ⟨hlt, _⟩ := List.getElem?_eq_some_iff.mp hf
    show s.manager.pageMap pageId = some i ↔ _
    rw [hc.mapped]
    by_cases hi : i = c
    · subst hi
      simp only [BufferManager.setFrame, List.getElem?_set_self hlt, hf, Option.some.injEq,
        exists_eq_left', hpage]
    · simp [BufferManager.setFrame, List.getElem?_set_ne (Ne.symm hi)]
  frame i p hp := by
    obtain ⟨hlt, _⟩ := List.getElem?_eq_some_iff.mp hf
    by_cases hi : i = c
    · subst hi
      have hpg : g = p := by simpa [BufferManager.setFrame, hlt] using hp
      rw [← hpg]
      exact hok
    · have hp' : s.manager.frames[i]? = some p := by
        simpa [BufferManager.setFrame, List.getElem?_set_ne (Ne.symm hi)] using hp
      have hold := hc.frame i p hp'
      have hsame : p.pageId.fileId ≠ FileId.unassigned → store' p.pageId = store p.pageId := by
        intro hp_assigned
        apply hstore
        intro heq
        exact hi (hc.frame_unique hp' hf hp_assigned heq.symm)
      exact {
        idle := hold.idle
        fits := hold.fits
        bytes := fun h => by rw [hsame h]; exact hold.bytes h
        clean := fun h hd => by rw [hsame h]; exact hold.clean h hd }
  unmapped pageId hpos hnone := by
    have hne : pageId ≠ f.pageId := by
      intro heq
      have hsome := (hc.mapped f.pageId c).mpr ⟨f, hf, rfl, hassigned⟩
      rw [← heq] at hsome
      exact absurd (hnone.symm.trans hsome) (by simp)
    rw [hstore pageId hne]
    exact hc.unmapped pageId hpos hnone
  handle := hhandle
  pins i p hp := by
    obtain ⟨hlt, _⟩ := List.getElem?_eq_some_iff.mp hf
    by_cases hi : i = c
    · subst hi
      have hpg : g = p := by simpa [BufferManager.setFrame, hlt] using hp
      rw [← hpg]
      exact hpins
    · have hp' : s.manager.frames[i]? = some p := by
        simpa [BufferManager.setFrame, List.getElem?_set_ne (Ne.symm hi)] using hp
      rw [hc.pins i p hp', hother i hi]

/-! ## The four requests -/

/-- A hit pins the frame the map points to. -/
theorem exec_hit (hc : Coherent store s) {pageId : PageId} {i : Nat}
    (hi : s.manager.pageMap pageId = some i)
    (hcount : (s.handles.countP (·.pageId = pageId) : Int) + 1 < 2 ^ 31) :
    ∃ s', s.exec (.getPage pageId) = .ok s' ∧ Coherent store s' := by
  obtain ⟨f, hf, hpage, hassigned⟩ := (hc.mapped _ _).mp hi
  have hexec : s.exec (.getPage pageId) =
      .ok ⟨s.manager.setFrame i f.pin, s.disk, ⟨pageId, i⟩ :: s.handles⟩ := by
    simp only [exec, execIo, BufferManager.getPage, hi, hf]
  have hpins : f.pins + 1 = (s.handles.countP (·.pageId = pageId) : Int) + 1 := by
    rw [hc.pins i f hf, hc.countP_frame hi]
  refine ⟨_, hexec, hc.replace hf rfl ?_ (fun _ _ => rfl) (by rw [hpage]; exact hassigned) ?_ ?_ ?_⟩
  · exact ⟨(hc.frame i f hf).idle, (hc.frame i f hf).fits, (hc.frame i f hf).bytes,
      (hc.frame i f hf).clean⟩
  · intro h hh
    rcases List.mem_cons.mp hh with rfl | hh
    · exact hi
    · exact hc.handle h hh
  · have hrange : int32 (f.pins + 1) = f.pins + 1 := int32_of_range (by omega) (by omega)
    show int32 (f.pins + 1) = _
    rw [hrange, hc.pins i f hf]
    simp
  · intro j hj
    simp [Ne.symm hj]

/-- Writing a frame back, if it is dirty, keeps coherence and leaves it clean. -/
theorem Coherent.clean (hc : Coherent store s) {c : Nat} {f : Page}
    (hf : s.manager.frames[c]? = some f) :
    ∃ disk', (if f.dirty then System.flush Io.ok f s.disk else (.ok f, s.disk)) =
        (.ok { f with dirty := false }, disk') ∧
      (∀ fileId, (s.disk fileId).size ≤ (disk' fileId).size) ∧
      Coherent store ⟨s.manager.setFrame c { f with dirty := false }, disk', s.handles⟩ := by
  have hok := hc.frame c f hf
  cases hdirty : f.dirty with
  | false =>
      have hsame : { f with dirty := false } = f := by rw [← hdirty]
      refine ⟨s.disk, by rw [hsame]; rfl, fun _ => le_refl _, ?_⟩
      have hset : s.manager.setFrame c { f with dirty := false } = s.manager := by
        obtain ⟨hlt, hget⟩ := List.getElem?_eq_some_iff.mp hf
        rw [hsame, BufferManager.setFrame, ← hget, List.set_getElem_self]
      rw [hset]
      exact hc
  | true =>
      have hassigned : f.pageId.fileId ≠ FileId.unassigned := by
        intro hun
        rw [hok.idle hun] at hdirty
        cases hdirty
      obtain ⟨disk', hflush, hself, hother, hsize, hpaged⟩ :=
        flush_spec Io.ok s.disk rfl (hok.fits hassigned)
      have hself' : disk'.pageOf f.pageId = store f.pageId := by
        rw [hself, hok.bytes hassigned]
      refine ⟨disk', hflush, hsize, ?_⟩
      -- first the disk changes under the frames, then the frame is marked clean
      have hdisk : Coherent store { s with disk := disk' } :=
        { hc with
          paged := hpaged hc.paged
          frame := by
            intro i p hp
            have hold := hc.frame i p hp
            refine ⟨hold.idle, hold.fits, hold.bytes, ?_⟩
            intro hp_assigned hp_clean
            by_cases heq : p.pageId = f.pageId
            · rw [heq]
              exact hself'
            · exact (hother _ (hold.fits hp_assigned).1 heq).trans (hold.clean hp_assigned hp_clean)
          unmapped := by
            intro pageId hpos hnone
            by_cases heq : pageId = f.pageId
            · rw [heq]
              exact hself'
            · exact (hother _ hpos heq).trans (hc.unmapped pageId hpos hnone) }
      refine hdisk.replace hf rfl ?_ (fun _ _ => rfl) hassigned hc.handle (hc.pins c f hf)
        (fun _ _ => rfl)
      exact ⟨fun _ => rfl, hok.fits, hok.bytes, fun _ _ => hself'⟩

/-- Taking a clean unpinned frame out of the map keeps coherence. -/
theorem Coherent.unassign (hc : Coherent store s) {c : Nat} {f : Page} (k : Int)
    (hf : s.manager.frames[c]? = some f) (hclean : f.dirty = false) (hpins : f.pins = 0) :
    Coherent store
      ⟨{ s.manager.setFrame c { f with pageId := ⟨FileId.unassigned, k⟩ } with
          pageMap := if f.pageId.fileId ≠ FileId.unassigned
            then s.manager.pageMap.erase f.pageId else s.manager.pageMap },
        s.disk, s.handles⟩ := by
  obtain ⟨hlt, _⟩ := List.getElem?_eq_some_iff.mp hf
  have hok := hc.frame c f hf
  -- the map afterwards: what it was, less this frame
  have hmap : ∀ (pageId : PageId) (i : Nat),
      (if f.pageId.fileId ≠ FileId.unassigned then s.manager.pageMap.erase f.pageId
        else s.manager.pageMap) pageId = some i ↔ s.manager.pageMap pageId = some i ∧ i ≠ c := by
    intro pageId i
    have hnot : f.pageId.fileId = FileId.unassigned ∨ pageId ≠ f.pageId →
        s.manager.pageMap pageId = some i → i ≠ c := by
      rintro hcase hi rfl
      obtain ⟨g, hg, hpage, hassigned⟩ := (hc.mapped _ _).mp hi
      rw [hf] at hg
      cases hg
      rcases hcase with hun | hne
      · rw [hpage] at hun
        exact hassigned hun
      · exact hne hpage.symm
    by_cases hassigned : f.pageId.fileId ≠ FileId.unassigned
    · rw [if_pos hassigned, PageMap.erase]
      by_cases heq : pageId = f.pageId
      · subst heq
        have hsome := (hc.mapped f.pageId c).mpr ⟨f, hf, rfl, hassigned⟩
        rw [Function.update_self, hsome]
        constructor
        · intro h
          cases h
        · rintro ⟨h, hne⟩
          exact absurd (Option.some.inj h).symm hne
      · rw [Function.update_of_ne heq]
        exact ⟨fun h => ⟨h, hnot (.inr heq) h⟩, fun h => h.1⟩
    · rw [if_neg hassigned]
      exact ⟨fun h => ⟨h, hnot (.inl (not_not.mp hassigned)) h⟩, fun h => h.1⟩
  -- no handle refers to an unpinned frame
  have hfree : ∀ h ∈ s.handles, h.frame ≠ c := by
    intro h hh heq
    obtain ⟨g, hg, _, _, hpos, _⟩ := hc.frame_of_handle hh
    rw [heq, hf] at hg
    cases hg
    omega
  constructor
  case clock =>
    show s.manager.clock < (s.manager.setFrame c _).frames.length
    rw [BufferManager.setFrame_length]
    exact hc.clock
  case paged => exact hc.paged
  case mapped =>
    intro pageId i
    rw [hmap, hc.mapped]
    by_cases hi : i = c
    · subst hi
      simp only [BufferManager.setFrame, List.getElem?_set_self hlt, Option.some.injEq,
        exists_eq_left', ne_eq, not_true_eq_false, and_false, false_iff]
      rintro ⟨rfl, hassigned⟩
      exact hassigned rfl
    · simp [BufferManager.setFrame, List.getElem?_set_ne (Ne.symm hi), hi]
  case frame =>
    intro i p hp
    by_cases hi : i = c
    · subst hi
      have hpg := Option.some.inj ((List.getElem?_set_self hlt).symm.trans hp)
      rw [← hpg]
      exact ⟨fun _ => hclean, fun h => absurd rfl h, fun h => absurd rfl h, fun h => absurd rfl h⟩
    · exact hc.frame i p ((List.getElem?_set_ne (Ne.symm hi)).symm.trans hp)
  case unmapped =>
    intro pageId hpos hnone
    cases hold : s.manager.pageMap pageId with
    | none => exact hc.unmapped pageId hpos hold
    | some i =>
        by_cases hi : i = c
        · subst hi
          obtain ⟨g, hg, hpage, hassigned⟩ := (hc.mapped _ _).mp hold
          rw [hf] at hg
          cases hg
          rw [← hpage] at hassigned ⊢
          exact hok.clean hassigned hclean
        · have hsome := (hmap pageId i).mpr ⟨hold, hi⟩
          exact absurd (hnone.symm.trans hsome) (by simp)
  case handle =>
    intro h hh
    exact (hmap _ _).mpr ⟨hc.handle h hh, hfree h hh⟩
  case pins =>
    intro i p hp
    by_cases hi : i = c
    · subst hi
      have hpg := Option.some.inj ((List.getElem?_set_self hlt).symm.trans hp)
      rw [← hpg]
      exact hc.pins _ f hf
    · exact hc.pins i p ((List.getElem?_set_ne (Ne.symm hi)).symm.trans hp)

/-- Giving an unassigned, unpinned frame to an unmapped page, with the page's
bytes and one handle, keeps coherence. -/
theorem Coherent.assign (hc : Coherent store s) {c : Nat} {f : Page} {pageId : PageId}
    (hf : s.manager.frames[c]? = some f) (hun : f.pageId.fileId = FileId.unassigned)
    (hpins : f.pins = 0) (hassigned : pageId.fileId ≠ FileId.unassigned)
    (hfit : OffsetFits pageId) (hnone : s.manager.pageMap pageId = none) :
    Coherent store
      ⟨{ s.manager.setFrame c ⟨pageId, store pageId, 1, true, false⟩ with
          pageMap := s.manager.pageMap.insert pageId c }, s.disk, ⟨pageId, c⟩ :: s.handles⟩ := by
  obtain ⟨hlt, _⟩ := List.getElem?_eq_some_iff.mp hf
  have hinsert : s.manager.pageMap.insert pageId c
      = Function.update s.manager.pageMap pageId (some c) := by
    unfold PageMap.insert
    rw [hnone]
  -- the frame was on no page, so the map does not point to it
  have hfree : ∀ p i, s.manager.pageMap p = some i → i ≠ c := by
    rintro p i hp rfl
    obtain ⟨g, hg, hpage, hp_assigned⟩ := (hc.mapped _ _).mp hp
    rw [hf] at hg
    cases hg
    exact hp_assigned (hpage ▸ hun)
  have hcount : s.handles.countP (·.frame = c) = 0 := by
    have := hc.pins c f hf
    omega
  rw [hinsert]
  constructor
  case clock =>
    show s.manager.clock < (s.manager.setFrame c _).frames.length
    rw [BufferManager.setFrame_length]
    exact hc.clock
  case paged => exact hc.paged
  case mapped =>
    intro p i
    show Function.update s.manager.pageMap pageId (some c) p = some i ↔ _
    by_cases hp : p = pageId
    · subst hp
      simp only [Function.update_self, Option.some.injEq]
      constructor
      · rintro rfl
        exact ⟨_, List.getElem?_set_self hlt, rfl, hassigned⟩
      · rintro ⟨g, hg, hpage, _⟩
        by_contra hi
        have hg' := (List.getElem?_set_ne hi).symm.trans hg
        exact absurd (hnone.symm.trans ((hc.mapped p i).mpr ⟨g, hg', hpage, hassigned⟩)) (by simp)
    · rw [Function.update_of_ne hp, hc.mapped]
      by_cases hi : i = c
      · subst hi
        constructor
        · rintro ⟨g, hg, hpage, hp_assigned⟩
          exact absurd rfl (hfree p i ((hc.mapped p i).mpr ⟨g, hg, hpage, hp_assigned⟩))
        · rintro ⟨g, hg, hpage, _⟩
          have hpg := Option.some.inj ((List.getElem?_set_self hlt).symm.trans hg)
          rw [← hpg] at hpage
          exact absurd hpage.symm hp
      · simp [BufferManager.setFrame, List.getElem?_set_ne (Ne.symm hi)]
  case frame =>
    intro i p hp
    by_cases hi : i = c
    · subst hi
      have hpg := Option.some.inj ((List.getElem?_set_self hlt).symm.trans hp)
      rw [← hpg]
      exact ⟨fun _ => rfl, fun _ => hfit, fun _ => rfl, fun _ _ => hc.unmapped pageId hfit.1 hnone⟩
    · exact hc.frame i p ((List.getElem?_set_ne (Ne.symm hi)).symm.trans hp)
  case unmapped =>
    intro p hpos hp_none
    change Function.update s.manager.pageMap pageId (some c) p = none at hp_none
    have hne : p ≠ pageId := by
      rintro rfl
      simp at hp_none
    rw [Function.update_of_ne hne] at hp_none
    exact hc.unmapped p hpos hp_none
  case handle =>
    intro h hh
    rcases List.mem_cons.mp hh with rfl | hh
    · exact Function.update_self ..
    · have hold := hc.handle h hh
      have hne : h.pageId ≠ pageId := by
        intro heq
        rw [heq, hnone] at hold
        cases hold
      exact (Function.update_of_ne hne ..).trans hold
  case pins =>
    intro i p hp
    by_cases hi : i = c
    · subst hi
      have hpg := Option.some.inj ((List.getElem?_set_self hlt).symm.trans hp)
      rw [← hpg]
      simp [hcount]
    · rw [hc.pins i p ((List.getElem?_set_ne (Ne.symm hi)).symm.trans hp)]
      simp [Ne.symm hi]

/-- A miss takes an unpinned frame, writes it back if it must, and reads the
page into it. -/
theorem exec_miss (hc : Coherent store s) {pageId : PageId}
    (hnone : s.manager.pageMap pageId = none) (hassigned : pageId.fileId ≠ FileId.unassigned)
    (hfit : OffsetFits pageId) (hend : EndFits s.disk pageId)
    (hspare : ∃ f ∈ s.manager.frames, f.pins = 0) :
    ∃ s', s.exec (.getPage pageId) = .ok s' ∧ Coherent store s' := by
  obtain ⟨f₀, hmem, hpins₀⟩ := hspare
  obtain ⟨j, hj⟩ := List.mem_iff_getElem?.mp hmem
  obtain ⟨bm, hbm⟩ := BufferManager.getUnusedPage_returns hc.clock hj hpins₀
  obtain ⟨hsw, f, hf, hpins, hchance⟩ := BufferManager.getUnusedPage_spec hbm
  obtain ⟨hlt, _⟩ := List.getElem?_eq_some_iff.mp hf
  have hc₁ : Coherent store { s with manager := bm } := hc.swept hsw hlt
  obtain ⟨disk₂, hflush, hsize, hc₂⟩ := hc₁.clean hf
  have hf₂ : (bm.setFrame bm.clock { f with dirty := false }).frames[bm.clock]? =
      some { f with dirty := false } := List.getElem?_set_self hlt
  have hc₃ := hc₂.unassign 0 hf₂ rfl hpins
  have hend₂ : EndFits disk₂ pageId := hend.imp id fun h => le_trans h (by exact_mod_cast hsize _)
  obtain ⟨disk₃, hread, hsame, _, hpaged⟩ :=
    readPage_spec Io.ok f.bytes rfl rfl hfit hend₂ hc₂.paged
  have hnone₃ : (if f.pageId.fileId ≠ FileId.unassigned then bm.pageMap.erase f.pageId
      else bm.pageMap) pageId = none := by
    have hbm_none : bm.pageMap pageId = none := by rw [hsw.pageMap]; exact hnone
    split
    · by_cases heq : pageId = f.pageId
      · rw [heq]
        exact Function.update_self ..
      · exact (Function.update_of_ne heq ..).trans hbm_none
    · exact hbm_none
  have hstore : disk₂.pageOf pageId = store pageId := hc₃.unmapped pageId hfit.1 hnone₃
  have hc₄ : Coherent store { s with
      manager := { bm.setFrame bm.clock { f with pageId := ⟨FileId.unassigned, 0⟩, dirty := false }
        with pageMap := if f.pageId.fileId ≠ FileId.unassigned then bm.pageMap.erase f.pageId
          else bm.pageMap },
      disk := disk₃ } := by
    have hset : (bm.frames.set bm.clock { f with dirty := false }).set bm.clock
          { f with pageId := ⟨FileId.unassigned, 0⟩, dirty := false } =
        bm.frames.set bm.clock { f with pageId := ⟨FileId.unassigned, 0⟩, dirty := false } :=
      List.set_set ..
    simp only [BufferManager.setFrame, hset] at hc₃ ⊢
    exact { hc₃ with
      paged := hpaged
      frame := fun i p hp => { hc₃.frame i p hp with
        clean := fun h h' => (hsame _).trans ((hc₃.frame i p hp).clean h h') }
      unmapped := fun p hpos h => (hsame _).trans (hc₃.unmapped p hpos h) }
  have hf₄ : (bm.setFrame bm.clock { f with pageId := ⟨FileId.unassigned, 0⟩, dirty := false }).frames[
      bm.clock]? = some { f with pageId := ⟨FileId.unassigned, 0⟩, dirty := false } :=
    List.getElem?_set_self hlt
  have hc₅ := hc₄.assign hf₄ rfl hpins hassigned hfit hnone₃
  refine ⟨_, ?_, hc₅⟩
  have hget := BufferManager.getPage_miss hnone hbm hf hflush hpins hchance hread
  rw [hstore] at hget
  simp only [exec, execIo, hget, BufferManager.setFrame, List.set_set]

/-- A write through a handle changes that page of the store and no other. -/
theorem exec_write (hc : Coherent store s) {h : Handle} {offset : Int} {data : List UInt8}
    (hh : h ∈ s.handles) (hin : Page.InBounds offset data.length) :
    ∃ s', s.exec (.write h offset data) = .ok s' ∧
      Coherent (store.apply (.write h offset data)) s' := by
  obtain ⟨f, hf, hpage, hassigned, _, hbytes⟩ := hc.frame_of_handle hh
  have hok := hc.frame _ f hf
  have hexec : s.exec (.write h offset data) = .ok ⟨s.manager.setFrame h.frame
      { f with bytes := f.bytes.splice offset.toNat data, dirty := true }, s.disk, s.handles⟩ := by
    simp only [exec, execIo, onFrame, hf, Page.write_eq_ok hin]
  rw [← hpage] at hassigned
  refine ⟨_, hexec, hc.replace hf rfl ⟨?_, hok.fits, ?_, ?_⟩ ?_ hassigned hc.handle
    (hc.pins _ f hf) (fun _ _ => rfl)⟩
  · intro hun
    exact absurd hun hassigned
  · intro _
    simp only [Store.apply, hpage, Function.update_self, hbytes]
  · intro _ hdirty
    cases hdirty
  · intro pageId hne
    rw [hpage] at hne
    exact Function.update_of_ne hne ..

/-- Unpinning through a handle gives the handle up. -/
theorem exec_unpin (hc : Coherent store s) {h : Handle} (hh : h ∈ s.handles) :
    ∃ s', s.exec (.unpin h) = .ok s' ∧ Coherent store s' := by
  obtain ⟨f, hf, hpage, hassigned, hpos, _⟩ := hc.frame_of_handle hh
  have hok := hc.frame _ f hf
  have hunpin : f.unpin = .ok { f with pins := f.pins - 1 } := Page.unpin_ok_iff.mpr ⟨hpos, rfl⟩
  have hexec : s.exec (.unpin h) = .ok ⟨s.manager.setFrame h.frame { f with pins := f.pins - 1 },
      s.disk, s.handles.erase h⟩ := by
    simp only [exec, execIo, onFrame, hf, hunpin]
  rw [← hpage] at hassigned
  refine ⟨_, hexec, hc.replace hf rfl ⟨hok.idle, hok.fits, hok.bytes, hok.clean⟩
    (fun _ _ => rfl) hassigned ?_ ?_ ?_⟩
  · intro h' hh'
    exact hc.handle h' (List.mem_of_mem_erase hh')
  · show f.pins - 1 = _
    rw [hc.pins _ f hf]
    have hcount : 0 < s.handles.countP (·.frame = h.frame) :=
      List.countP_pos_iff.mpr ⟨h, hh, by simp⟩
    rw [List.countP_erase, if_pos ⟨hh, by simp⟩]
    omega
  · intro i hi
    rw [List.countP_erase, if_neg]
    · simp
    · simp [Ne.symm hi]

/-- The loop of `flush` over the frames from `k` on. -/
theorem flushFrames_coherent : ∀ (rest done : List Page) (s : Pool), Coherent store s →
    s.manager.frames = done ++ rest → (∀ f ∈ rest, f.pins = 0) →
    ∃ rest' disk', BufferManager.flushFrames Io.ok rest s.disk = (.ok (), rest', disk') ∧
      Coherent store ⟨{ s.manager with frames := done ++ rest' }, disk', s.handles⟩ := by
  intro rest
  induction rest with
  | nil =>
      intro done s hc hframes _
      refine ⟨[], s.disk, rfl, ?_⟩
      rw [← hframes]
      exact hc
  | cons f rest ih =>
      intro done s hc hframes hfree
      have hf : s.manager.frames[done.length]? = some f := by rw [hframes]; simp
      obtain ⟨disk₁, hflush, _, hc₁⟩ := hc.clean hf
      have hpins : ¬ f.pins ≠ 0 := not_not.mpr (hfree f (by simp))
      have hset : s.manager.setFrame done.length { f with dirty := false } =
          { s.manager with frames := (done ++ [{ f with dirty := false }]) ++ rest } := by
        simp [BufferManager.setFrame, hframes]
      rw [hset] at hc₁
      obtain ⟨rest', disk₂, hrest, hc₂⟩ :=
        ih (done ++ [{ f with dirty := false }]) _ hc₁ rfl fun g hg => hfree g (by simp [hg])
      refine ⟨{ f with dirty := false } :: rest', disk₂, ?_, ?_⟩
      · simp only [BufferManager.flushFrames, if_neg hpins, hflush, hrest]
      · simpa using hc₂

/-- A legal request that stays in the range of the arithmetic succeeds and keeps
the pool a refinement of the store. -/
theorem exec_coherent (hc : Coherent store s) {r : Request} (hlegal : s.Legal r)
    (hwrap : s.NoWrap r) : ∃ s', s.exec r = .ok s' ∧ Coherent (store.apply r) s' := by
  cases r with
  | getPage pageId =>
      obtain ⟨hassigned, hfit, hspare⟩ := hlegal
      obtain ⟨hend, hcount⟩ := hwrap
      cases hmap : s.manager.pageMap pageId with
      | some i => exact exec_hit hc hmap hcount
      | none => exact exec_miss hc hmap hassigned hfit hend (hspare hmap)
  | write h offset data => exact exec_write hc hlegal.1 hlegal.2
  | unpin h => exact exec_unpin hc hlegal
  | flush =>
      obtain ⟨frames', disk', hflush, hc'⟩ :=
        flushFrames_coherent s.manager.frames [] s hc rfl hlegal
      refine ⟨_, ?_, hc'⟩
      simp only [exec, execIo, BufferManager.flush, hflush, List.nil_append]

end Coherence

end Pool

end Iic3413Db.System
