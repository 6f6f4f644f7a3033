/-
  System/BufferErrors.lean --- what `get_page` leaves behind when it throws.

  `GetPageResult` says once what one call can do to the pool, the throwing
  prefixes included.  `Sound` is kept by every request, throwing or not; it is
  enough to see that a throw from `flush` leaves a dirty frame out of the map, and
  a throw from `read_page` leaves a frame pinned that nobody can unpin.
-/
import Iic3413Db.System.BufferRuns

set_option autoImplicit false

namespace Iic3413Db.System

open Iic3413Db.Foundation Iic3413Db.Storage

namespace BufferManager

/-- What one call of `get_page` returns or throws, with the pool it leaves. -/
inductive GetPageResult (bm : BufferManager) (pageId : PageId) :
    Outcome Nat → BufferManager → Prop
  /-- the page is buffered -/
  | hit {i : Nat} {f : Page} : bm.pageMap pageId = some i → bm.frames[i]? = some f →
      GetPageResult bm pageId (.ok i) (bm.setFrame i f.pin)
  /-- no frame can be chosen -/
  | stuck {what : String} : GetPageResult bm pageId (.error (.undefinedBehaviour what)) bm
  /-- `flush` throws on the dirty victim -/
  | flushThrows {b m : BufferManager} {f : Page} {msg : String} : Swept bm b →
      b.frames[b.clock]? = some f → f.pins = 0 → f.dirty = true → m = b.evict f →
      GetPageResult bm pageId (.error (.runtimeError msg)) m
  /-- `read_page` throws on the frame just reassigned -/
  | readThrows {b m : BufferManager} {f : Page} {msg : String} {bytes : PageBytes} : Swept bm b →
      b.frames[b.clock]? = some f → f.pins = 0 →
      m = (b.evict f).setFrame b.clock ⟨pageId, bytes, 1, true, false⟩ →
      GetPageResult bm pageId (.error (.runtimeError msg)) m
  /-- the page is read in -/
  | miss {b m : BufferManager} {f : Page} {bytes : PageBytes} : Swept bm b →
      b.frames[b.clock]? = some f → f.pins = 0 →
      m = { (b.evict f).setFrame b.clock ⟨pageId, bytes, 1, true, false⟩ with
        pageMap := (b.evict f).pageMap.insert pageId b.clock } →
      GetPageResult bm pageId (.ok b.clock) m

/-- Writing the victim back throws, or leaves it clean. -/
theorem flush_victim (io : Io) (f : Page) (disk : Disk) :
    (∃ msg disk', f.dirty = true ∧
      (if f.dirty then System.flush io f disk else (.ok f, disk)) =
        (.error (.runtimeError msg), disk')) ∨
    ∃ disk', (if f.dirty then System.flush io f disk else (.ok f, disk)) =
      (.ok { f with dirty := false }, disk') := by
  cases hdirty : f.dirty with
  | false =>
      right
      have hsame : { f with dirty := false } = f := by rw [← hdirty]
      rw [hsame]
      exact ⟨disk, rfl⟩
  | true =>
      rw [if_pos rfl, System.flush]
      split
      · exact .inr ⟨_, rfl⟩
      · exact .inl ⟨_, _, rfl, rfl⟩

/-- `read_page` returns, or throws `std::runtime_error`. -/
theorem readPage_result (io : Io) (pageId : PageId) (bytes : PageBytes) (disk : Disk) :
    ∃ bytes' disk', readPage io pageId bytes disk = (.ok (), bytes', disk') ∨
      ∃ msg, readPage io pageId bytes disk = (.error (.runtimeError msg), bytes', disk') := by
  unfold readPage
  dsimp only
  split
  · split
    · exact ⟨_, _, .inl rfl⟩
    · exact ⟨_, _, .inr ⟨_, rfl⟩⟩
  · split
    · exact ⟨_, _, .inl rfl⟩
    · exact ⟨_, _, .inr ⟨_, rfl⟩⟩

theorem getPage_result (io : Io) (bm : BufferManager) (disk : Disk) (pageId : PageId) :
    GetPageResult bm pageId (bm.getPage io disk pageId).1 (bm.getPage io disk pageId).2.1 := by
  unfold getPage
  cases hmap : bm.pageMap pageId with
  | some i =>
      cases hf : bm.frames[i]? with
      | none => simpa only [hf] using .stuck
      | some f => simpa only [hf] using .hit hmap hf
  | none =>
      cases hb : bm.getUnusedPage with
      | none => simpa only [hb] using .stuck
      | some b =>
          obtain ⟨hsw, f, hf, hpins, hchance⟩ := getUnusedPage_spec hb
          simp only [hf]
          rcases flush_victim io f disk with ⟨msg, disk', hdirty, hflush⟩ | ⟨disk', hflush⟩
          · rw [hflush]
            exact .flushThrows hsw hf hpins hdirty rfl
          · have hreassign : Page.reassign { f with dirty := false } pageId =
                .ok { f with dirty := false, pageId := pageId, pins := 1, secondChance := true } :=
              Page.reassign_ok_iff.mpr ⟨⟨rfl, hpins, hchance⟩, rfl⟩
            simp only [hflush, hreassign, evict_clock]
            obtain ⟨bytes', disk'', hread⟩ := readPage_result io pageId f.bytes disk'
            rcases hread with hread | ⟨msg, hread⟩
            · rw [hread]
              exact .miss hsw hf hpins rfl
            · rw [hread]
              exact .readThrows hsw hf hpins rfl

end BufferManager

namespace Pool

/-! ## What every request keeps, throwing or not -/

/-- Pools as requests leave them: the map and the handles refer to assigned
frames, only assigned frames are dirty, and every handle is counted. -/
structure Sound (s : Pool) : Prop where
  mapped : ∀ (pageId : PageId) (i : Nat), s.manager.pageMap pageId = some i →
    ∃ f, s.manager.frames[i]? = some f ∧ f.pageId.fileId ≠ FileId.unassigned
  dirty : ∀ (i : Nat) (f : Page), s.manager.frames[i]? = some f → f.dirty = true →
    f.pageId.fileId ≠ FileId.unassigned
  held : ∀ h ∈ s.handles, ∃ f, s.manager.frames[h.frame]? = some f ∧
    f.pageId.fileId ≠ FileId.unassigned
  pins : ∀ (i : Nat) (f : Page), s.manager.frames[i]? = some f →
    (s.handles.countP (·.frame = i) : Int) ≤ f.pins

/-- `g` is `f` up to the second-chance bit, possibly written back. -/
def Tidied (f g : Page) : Prop :=
  g = { f with secondChance := g.secondChance, dirty := g.dirty } ∧
    (g.dirty = true → f.dirty = true)

theorem Tidied.refl (f : Page) : Tidied f f := ⟨rfl, id⟩

theorem Tidied.of_sameButChance {f g : Page} (h : BufferManager.SameButChance f g) :
    Tidied f g := by
  unfold BufferManager.SameButChance at h
  rw [h]
  exact ⟨rfl, id⟩

/-- The pin count must not run out of the `int32_t`. -/
def PinFits (s : Pool) : Request → Prop
  | .getPage pageId => ∀ (i : Nat) (f : Page), s.manager.pageMap pageId = some i →
      s.manager.frames[i]? = some f → f.pins + 1 < 2 ^ 31
  | .write _ _ _ | .unpin _ | .flush => True

/-- The pool under legal requests whose system calls may fail. -/
def ioMachine : Machine Pool (Io × Request) where
  init := Fresh
  step s l s' := s.Legal l.2 ∧ s.PinFits l.2 ∧ s' = (s.execIo l.1 l.2).2

section Sound

variable {s : Pool}

/-- Tidying frames, whatever happens to the clock and the disk. -/
theorem Sound.tidied (hs : Sound s) {frames : List Page} (clock : Nat) (disk : Disk)
    (ht : List.Forall₂ Tidied s.manager.frames frames) :
    Sound ⟨{ clock := clock, frames := frames, pageMap := s.manager.pageMap }, disk,
      s.handles⟩ := by
  -- the frame at `i` before and after
  have hto : ∀ (i : Nat) (f : Page), s.manager.frames[i]? = some f →
      ∃ g, frames[i]? = some g ∧ Tidied f g := by
    intro i f hf
    obtain ⟨hi, rfl⟩ := List.getElem?_eq_some_iff.mp hf
    have hi' : i < frames.length := by rw [← ht.length_eq]; exact hi
    exact ⟨frames[i], List.getElem?_eq_getElem hi', ht.get hi hi'⟩
  have hof : ∀ (i : Nat) (g : Page), frames[i]? = some g →
      ∃ f, s.manager.frames[i]? = some f ∧ Tidied f g := by
    intro i g hg
    obtain ⟨hi', rfl⟩ := List.getElem?_eq_some_iff.mp hg
    have hi : i < s.manager.frames.length := by rw [ht.length_eq]; exact hi'
    exact ⟨s.manager.frames[i], List.getElem?_eq_getElem hi, ht.get hi hi'⟩
  constructor
  case mapped =>
    intro pageId i hmap
    obtain ⟨f, hf, hassigned⟩ := hs.mapped pageId i hmap
    obtain ⟨g, hg, hsame, _⟩ := hto i f hf
    exact ⟨g, hg, by rw [hsame]; exact hassigned⟩
  case dirty =>
    intro i g hg hdirty
    obtain ⟨f, hf, hsame, hback⟩ := hof i g hg
    rw [hsame]
    exact hs.dirty i f hf (hback hdirty)
  case held =>
    intro h hh
    obtain ⟨f, hf, hassigned⟩ := hs.held h hh
    obtain ⟨g, hg, hsame, _⟩ := hto _ f hf
    exact ⟨g, hg, by rw [hsame]; exact hassigned⟩
  case pins =>
    intro i g hg
    obtain ⟨f, hf, hsame, _⟩ := hof i g hg
    rw [hsame]
    exact hs.pins i f hf

/-- Replacing one frame, with the map entries and the handles that go with it. -/
theorem Sound.replace (hs : Sound s) {c : Nat} {f g : Page} (clock : Nat) (pageMap : PageMap)
    (disk : Disk) (handles : List Handle)
    (hf : s.manager.frames[c]? = some f)
    (hassigned : f.pageId.fileId ≠ FileId.unassigned → g.pageId.fileId ≠ FileId.unassigned)
    (hdirty : g.dirty = true → g.pageId.fileId ≠ FileId.unassigned)
    (hmap : ∀ pageId i, pageMap pageId = some i →
      s.manager.pageMap pageId = some i ∨ i = c ∧ g.pageId.fileId ≠ FileId.unassigned)
    (hheld : ∀ h ∈ handles, h ∈ s.handles ∨
      h.frame = c ∧ g.pageId.fileId ≠ FileId.unassigned)
    (hpins : (handles.countP (·.frame = c) : Int) ≤ g.pins)
    (hother : ∀ i, i ≠ c →
      handles.countP (·.frame = i) ≤ s.handles.countP (·.frame = i)) :
    Sound ⟨{ clock := clock, frames := s.manager.frames.set c g, pageMap := pageMap }, disk,
      handles⟩ := by
  obtain ⟨hlt, _⟩ := List.getElem?_eq_some_iff.mp hf
  -- an assigned frame before is an assigned frame after
  have hkeep : ∀ i : Nat, (∃ p : Page, s.manager.frames[i]? = some p ∧ p.pageId.fileId ≠ FileId.unassigned) →
      ∃ p : Page, (s.manager.frames.set c g)[i]? = some p ∧ p.pageId.fileId ≠ FileId.unassigned := by
    rintro i ⟨p, hp, hp_assigned⟩
    by_cases hi : i = c
    · subst hi
      rw [hf] at hp
      cases hp
      exact ⟨g, List.getElem?_set_self hlt, hassigned hp_assigned⟩
    · exact ⟨p, (List.getElem?_set_ne (Ne.symm hi)).trans hp, hp_assigned⟩
  have hnew : g.pageId.fileId ≠ FileId.unassigned →
      ∃ p : Page, (s.manager.frames.set c g)[c]? = some p ∧ p.pageId.fileId ≠ FileId.unassigned :=
    fun h => ⟨g, List.getElem?_set_self hlt, h⟩
  constructor
  case mapped =>
    intro pageId i hi
    rcases hmap pageId i hi with hold | ⟨rfl, hg⟩
    · exact hkeep i (hs.mapped pageId i hold)
    · exact hnew hg
  case dirty =>
    intro i p hp hp_dirty
    by_cases hi : i = c
    · subst hi
      have hpg := Option.some.inj ((List.getElem?_set_self hlt).symm.trans hp)
      rw [← hpg] at hp_dirty ⊢
      exact hdirty hp_dirty
    · exact hs.dirty i p ((List.getElem?_set_ne (Ne.symm hi)).symm.trans hp) hp_dirty
  case held =>
    intro h hh
    rcases hheld h hh with hold | ⟨heq, hg⟩
    · exact hkeep _ (hs.held h hold)
    · rw [heq]
      exact hnew hg
  case pins =>
    intro i p hp
    by_cases hi : i = c
    · subst hi
      have hpg := Option.some.inj ((List.getElem?_set_self hlt).symm.trans hp)
      rw [← hpg]
      exact hpins
    · have hold := hs.pins i p ((List.getElem?_set_ne (Ne.symm hi)).symm.trans hp)
      exact le_trans (by exact_mod_cast hother i hi) hold

/-- An unpinned frame has no handle. -/
theorem Sound.countP_eq_zero (hs : Sound s) {c : Nat} {f : Page}
    (hf : s.manager.frames[c]? = some f) (hpins : f.pins = 0) :
    s.handles.countP (·.frame = c) = 0 := by
  have hle := hs.pins c f hf
  omega

theorem evict_pageMap_some {b : BufferManager} {f : Page} {pageId : PageId} {i : Nat}
    (h : (b.evict f).pageMap pageId = some i) : b.pageMap pageId = some i := by
  rw [BufferManager.evict_pageMap] at h
  split at h
  · by_cases heq : pageId = f.pageId
    · rw [heq, PageMap.erase, Function.update_self] at h
      cases h
    · rwa [PageMap.erase, Function.update_of_ne heq] at h
  · exact h

theorem insert_some {m : PageMap} {key pageId : PageId} {value i : Nat}
    (h : m.insert key value pageId = some i) : m pageId = some i ∨ i = value := by
  unfold PageMap.insert at h
  cases hkey : m key with
  | some _ =>
      rw [hkey] at h
      exact .inl h
  | none =>
      rw [hkey] at h
      by_cases heq : pageId = key
      · rw [heq] at h
        exact .inr (Option.some.inj (h.symm.trans (Function.update_self ..))).symm.symm
      · exact .inl ((Function.update_of_ne heq ..).symm.trans h)

/-- `get_page` keeps a sound pool sound, whatever the system calls return. -/
theorem Sound.getPage (hs : Sound s) (io : Io) {pageId : PageId}
    (hassigned : pageId.fileId ≠ FileId.unassigned) (hfits : s.PinFits (.getPage pageId)) :
    Sound (s.execIo io (.getPage pageId)).2 := by
  have hresult := BufferManager.getPage_result io s.manager s.disk pageId
  rcases hcall : s.manager.getPage io s.disk pageId with ⟨result, manager, disk⟩
  rw [hcall] at hresult
  simp only [execIo, hcall]
  -- a sweep first, where there is one
  have hswept : ∀ {b : BufferManager}, BufferManager.Swept s.manager b →
      Sound ⟨b, s.disk, s.handles⟩ := by
    intro b hsw
    have hb := hs.tidied b.clock s.disk (hsw.frames.imp fun _ _ => Tidied.of_sameButChance)
    rw [← hsw.pageMap] at hb
    exact hb
  cases hresult with
  | @hit i f hmap hf =>
      have hnonneg : (0 : Int) ≤ f.pins := le_trans (by positivity) (hs.pins i f hf)
      have hrange : int32 (f.pins + 1) = f.pins + 1 :=
        int32_of_range (by omega) (hfits i f hmap hf)
      obtain ⟨g, hg, hg_assigned⟩ := hs.mapped pageId i hmap
      rw [hf] at hg
      cases hg
      refine hs.replace _ _ _ _ hf id (fun _ => hg_assigned) (fun _ _ h => .inl h) ?_ ?_ ?_
      · intro h hh
        rcases List.mem_cons.mp hh with rfl | hh
        · exact .inr ⟨rfl, hg_assigned⟩
        · exact .inl hh
      · show _ ≤ int32 (f.pins + 1)
        have hle := hs.pins i f hf
        rw [hrange]
        simpa using hle
      · intro j hj
        simp [Ne.symm hj]
  | stuck => exact hs.tidied _ _ (List.forall₂_same.mpr fun f _ => .refl f)
  | @flushThrows b m f msg hsw hf hpins hdirty hm =>
      subst hm
      have hb := hswept hsw
      obtain ⟨hlt, hget⟩ := List.getElem?_eq_some_iff.mp hf
      have hself : b.frames.set b.clock f = b.frames := by rw [← hget, List.set_getElem_self]
      have hgoal := hb.replace (g := f) b.clock (b.evict f).pageMap disk s.handles hf id (fun h => hb.dirty _ f hf h) (fun _ _ h => .inl (evict_pageMap_some h))
        (fun _ h => .inl h) (hb.pins _ f hf) (fun _ _ => le_refl _)
      rw [hself] at hgoal
      rw [BufferManager.evict_eq]
      exact hgoal
  | @readThrows b m f msg bytes hsw hf hpins hm =>
      subst hm
      have hb := hswept hsw
      have hcount := hb.countP_eq_zero hf hpins
      have hgoal := hb.replace (g := ⟨pageId, bytes, 1, true, false⟩)
        b.clock (b.evict f).pageMap disk s.handles hf
        (fun _ => hassigned) (fun _ => hassigned) (fun _ _ h => .inl (evict_pageMap_some h))
        (fun _ h => .inl h) (by rw [hcount]; exact zero_le_one) (fun _ _ => le_refl _)
      simpa only [BufferManager.setFrame, BufferManager.evict_frames,
        BufferManager.evict_clock] using hgoal
  | @miss b m f bytes hsw hf hpins hm =>
      subst hm
      have hb := hswept hsw
      have hcount := hb.countP_eq_zero hf hpins
      have hgoal := hb.replace (g := ⟨pageId, bytes, 1, true, false⟩)
        b.clock ((b.evict f).pageMap.insert pageId b.clock) disk (⟨pageId, b.clock⟩ :: s.handles) hf
        (fun _ => hassigned) (fun _ => hassigned) ?_ ?_ ?_ ?_
      · simpa only [BufferManager.setFrame, BufferManager.evict_frames,
          BufferManager.evict_clock] using hgoal
      · intro p i hp
        rcases insert_some hp with hold | hnew
        · exact .inl (evict_pageMap_some hold)
        · exact .inr ⟨hnew, hassigned⟩
      · intro h hh
        rcases List.mem_cons.mp hh with rfl | hh
        · exact .inr ⟨rfl, hassigned⟩
        · exact .inl hh
      · simpa using hcount
      · intro i hi
        simp [Ne.symm hi]

/-- What `flush` does to the frames, also when it stops half way. -/
theorem flushFrames_tidied (io : Io) : ∀ (frames : List Page) (disk : Disk),
    List.Forall₂ Tidied frames (BufferManager.flushFrames io frames disk).2.1 := by
  intro frames
  induction frames with
  | nil => exact fun _ => .nil
  | cons f frames ih =>
      intro disk
      have hsame : List.Forall₂ Tidied (f :: frames) (f :: frames) :=
        List.forall₂_same.mpr fun f _ => .refl f
      unfold BufferManager.flushFrames
      split
      · exact hsame
      · rcases BufferManager.flush_victim io f disk with ⟨msg, disk', _, hflush⟩ | ⟨disk', hflush⟩
        · simp only [hflush]
          exact hsame
        · simp only [hflush]
          exact .cons ⟨rfl, fun h => by cases h⟩ (ih disk')

/-- Every request keeps a sound pool sound. -/
theorem Sound.execIo (hs : Sound s) (io : Io) {r : Request} (hlegal : s.Legal r)
    (hfits : s.PinFits r) : Sound (s.execIo io r).2 := by
  cases r with
  | getPage pageId => exact hs.getPage io hlegal.1 hfits
  | write h offset data =>
      obtain ⟨hh, hin⟩ := hlegal
      obtain ⟨f, hf, hassigned⟩ := hs.held h hh
      simp only [Pool.execIo, onFrame, hf, Page.write_eq_ok hin]
      exact hs.replace _ _ _ _ hf id (fun _ => hassigned) (fun _ _ h => .inl h) (fun _ h => .inl h)
        (hs.pins _ f hf) (fun _ _ => le_refl _)
  | unpin h =>
      obtain ⟨f, hf, hassigned⟩ := hs.held h hlegal
      have hcount : 0 < s.handles.countP (·.frame = h.frame) :=
        List.countP_pos_iff.mpr ⟨h, hlegal, by simp⟩
      have hle := hs.pins _ f hf
      have hunpin : f.unpin = .ok { f with pins := f.pins - 1 } :=
        Page.unpin_ok_iff.mpr ⟨by omega, rfl⟩
      simp only [Pool.execIo, onFrame, hf, hunpin]
      refine hs.replace _ _ _ _ hf id (fun _ => hassigned) (fun _ _ h => .inl h)
        (fun _ h => .inl (List.mem_of_mem_erase h)) ?_ ?_
      · show _ ≤ f.pins - 1
        rw [List.countP_erase, if_pos ⟨hlegal, by simp⟩]
        omega
      · intro i _
        exact List.Sublist.countP_le List.erase_sublist
  | flush => exact hs.tidied _ _ (flushFrames_tidied io s.manager.frames s.disk)

end Sound

theorem sound_fresh {s : Pool} (h : s.Fresh) : Sound s := by
  have hc := coherent_fresh h
  constructor
  case mapped =>
    intro pageId i hi
    obtain ⟨f, hf, hpage, hassigned⟩ := (hc.mapped pageId i).mp hi
    exact ⟨f, hf, by rw [hpage]; exact hassigned⟩
  case dirty =>
    intro i f hf hdirty hun
    rw [(hc.frame i f hf).idle hun] at hdirty
    cases hdirty
  case held =>
    intro h' hh'
    obtain ⟨f, hf, hpage, hassigned, _⟩ := hc.frame_of_handle hh'
    exact ⟨f, hf, by rw [hpage]; exact hassigned⟩
  case pins => exact fun i f hf => le_of_eq (hc.pins i f hf).symm

/-- Pools reached by any legal requests, over system calls that fail or not. -/
theorem sound_of_reachable {s : Pool} (h : ioMachine.Reachable s) : Sound s :=
  h.invariant (fun _ => sound_fresh) fun _ _ _ hs ⟨hlegal, hfits, heq⟩ =>
    heq ▸ hs.execIo _ hlegal hfits

/-! ## After a throw -/

/-- The pool is safe to go on with: unsaved changes are mapped, a pinned frame
has a handle, and no page is in two frames. -/
structure Recoverable (s : Pool) : Prop where
  unsaved : ∀ (i : Nat) (f : Page), s.manager.frames[i]? = some f → f.dirty = true →
    s.manager.pageMap f.pageId = some i
  pinned : ∀ (i : Nat) (f : Page), s.manager.frames[i]? = some f →
    f.pageId.fileId ≠ FileId.unassigned → f.pins ≠ 0 → ∃ h ∈ s.handles, h.frame = i
  single : ∀ (i j : Nat) (f g : Page), s.manager.frames[i]? = some f →
    s.manager.frames[j]? = some g → f.pageId.fileId ≠ FileId.unassigned →
    g.pageId = f.pageId → i = j

/-- No `get_page` that throws leaves the pool recoverable. -/
theorem getPage_throw_not_recoverable (s : Pool) (io : Io) (pageId : PageId) (msg : String)
    (hreach : ioMachine.Reachable s) (hassigned : pageId.fileId ≠ FileId.unassigned)
    (hthrow : (s.execIo io (.getPage pageId)).1 = .error (.runtimeError msg)) :
    ¬ Recoverable (s.execIo io (.getPage pageId)).2 := by
  have hs := sound_of_reachable hreach
  have hresult := BufferManager.getPage_result io s.manager s.disk pageId
  rcases hcall : s.manager.getPage io s.disk pageId with ⟨result, manager, disk⟩
  rw [hcall] at hresult
  intro hrec
  cases hresult with
  | hit => simp [execIo, hcall] at hthrow
  | stuck => simp [execIo, hcall] at hthrow
  | miss => simp [execIo, hcall] at hthrow
  | @flushThrows b m f msg hsw hf hpins hdirty hm =>
      subst hm
      -- the dirty victim has already left the map
      simp only [execIo, hcall] at hrec
      obtain ⟨f₀, hf₀, hsame⟩ := hsw.getElem? hf
      have hdirty₀ : f₀.dirty = true := by rw [hsame] at hdirty; exact hdirty
      have hf_assigned : f.pageId.fileId ≠ FileId.unassigned := by
        rw [hsame]
        exact hs.dirty _ f₀ hf₀ hdirty₀
      have hmap := hrec.unsaved b.clock f (by simpa using hf) hdirty
      rw [BufferManager.evict_pageMap, if_pos hf_assigned, PageMap.erase,
        Function.update_self] at hmap
      cases hmap
  | @readThrows b m f msg bytes hsw hf hpins hm =>
      subst hm
      -- the frame is pinned for a handle that was never handed out
      simp only [execIo, hcall] at hrec
      obtain ⟨hlt, _⟩ := List.getElem?_eq_some_iff.mp hf
      obtain ⟨f₀, hf₀, hsame⟩ := hsw.getElem? hf
      have hcount := hs.countP_eq_zero hf₀ (by rw [hsame] at hpins; exact hpins)
      obtain ⟨h, hh, hframe⟩ := hrec.pinned b.clock ⟨pageId, bytes, 1, true, false⟩
        (by simp [BufferManager.setFrame, hlt]) hassigned (by simp)
      have hpos : 0 < s.handles.countP (·.frame = b.clock) :=
        List.countP_pos_iff.mpr ⟨h, hh, by simpa using hframe⟩
      omega

/-- Page 0 in the only frame. -/
def firstHandle : Handle := ⟨⟨⟨3⟩, 0⟩, 0⟩

/-- The one-frame pool after page 0 was read in, changed and released. -/
def dirtyPool : Pool :=
  let s := (onePool.execIo Io.ok (.getPage firstHandle.pageId)).2
  let s := (s.execIo Io.ok (.write firstHandle 0 [7])).2
  (s.execIo Io.ok (.unpin firstHandle)).2

theorem dirtyPool_reachable : ioMachine.Reachable dirtyPool := by
  have hlegal : onePool.Legal (.getPage firstHandle.pageId) :=
    ⟨by decide, ⟨by decide, by decide⟩, fun _ => ⟨_, List.mem_singleton.mpr rfl, rfl⟩⟩
  have hfits : onePool.PinFits (.getPage firstHandle.pageId) := by
    intro i f hmap
    cases hmap
  have hget := Machine.Reachable.step (M := ioMachine) (l := (Io.ok, _))
    (.init onePool_fresh) ⟨hlegal, hfits, rfl⟩
  have hwrite := Machine.Reachable.step (M := ioMachine)
    (l := (Io.ok, Request.write firstHandle 0 [7])) hget
    ⟨⟨List.mem_singleton.mpr rfl, by decide⟩, trivial, rfl⟩
  exact Machine.Reachable.step (M := ioMachine) (l := (Io.ok, Request.unpin firstHandle)) hwrite
    ⟨List.mem_singleton.mpr rfl, trivial, rfl⟩

/-- `getPage_throw_not_recoverable` where the write-back of page 0 fails. -/
theorem getPage_flush_throws_not_recoverable :
    (dirtyPool.execIo { Io.ok with writeOk := false } (.getPage ⟨⟨3⟩, 1⟩)).1 =
        .error (.runtimeError "Could not write into file when flushing page") ∧
      ¬ Recoverable (dirtyPool.execIo { Io.ok with writeOk := false } (.getPage ⟨⟨3⟩, 1⟩)).2 :=
  ⟨rfl, getPage_throw_not_recoverable dirtyPool _ _ _ dirtyPool_reachable (by decide) rfl⟩

/-- One failed `ftruncate` on a new pool of one frame: the frame stays pinned
with no handle to unpin it, and the next `get_page` never returns. -/
theorem getPage_truncate_fails_leaks : onePool.Fresh ∧
    (onePool.execIo { Io.ok with truncateOk := false } (.getPage ⟨⟨3⟩, 0⟩)).1 =
        .error (.runtimeError "Could not write into file") ∧
      ¬ Recoverable (onePool.execIo { Io.ok with truncateOk := false } (.getPage ⟨⟨3⟩, 0⟩)).2 ∧
      ((onePool.execIo { Io.ok with truncateOk := false } (.getPage ⟨⟨3⟩, 0⟩)).2.execIo Io.ok
          (.getPage ⟨⟨3⟩, 0⟩)).1 =
        .error (.undefinedBehaviour "get_unused_page does not return") := by
  refine ⟨onePool_fresh, rfl, ?_, rfl⟩
  intro hrec
  obtain ⟨h, hh, _⟩ := hrec.pinned 0 _ rfl (by decide) (by decide)
  cases hh

end Pool

end Iic3413Db.System
