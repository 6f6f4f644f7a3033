/-
  System/BufferManager.lean --- `system/buffer_manager.cc`: the frames, the clock
  and the page map.

  `page_map` is a partial function from page ids to frame indexes, with the
  `find`, `insert` and `erase` of `std::unordered_map`; in particular `insert`
  leaves an existing entry alone.  `getUnusedPage` has no bound in the source, so
  its loop takes fuel; `System/BufferClock.lean` shows that two turns of the clock
  are enough whenever some frame is unpinned.
-/
import Iic3413Db.System.FileManager

set_option autoImplicit false

namespace Iic3413Db.System

open Iic3413Db.Foundation Iic3413Db.Storage

/-- `std::unordered_map<PageId, Page*>`, a frame standing for its address. -/
abbrev PageMap : Type := PageId → Option Nat

/-- `erase(key)`. -/
def PageMap.erase (m : PageMap) (key : PageId) : PageMap := Function.update m key none

/-- `insert({key, value})`. -/
def PageMap.insert (m : PageMap) (key : PageId) (value : Nat) : PageMap :=
  match m key with
  | none => Function.update m key (some value)
  | some _ => m

/-- `class BufferManager`. -/
structure BufferManager where
  clock : Nat
  frames : List Page
  pageMap : PageMap

namespace BufferManager

/-- The frame the private constructor `Page()` builds, with its memory. -/
def freshFrame (bytes : PageBytes) : Page :=
  { pageId := ⟨FileId.unassigned, 0⟩, bytes := bytes, pins := 0, secondChance := false,
    dirty := false }

/-- `BufferManager::BufferManager`: the frames over whatever the allocator
returned. -/
def create (data : List PageBytes) : BufferManager :=
  { clock := 0, frames := data.map freshFrame, pageMap := fun _ => none }

/-- `clock++; clock = clock < frame_count ? clock : 0`. -/
def advance (bm : BufferManager) : BufferManager :=
  { bm with clock := if bm.clock + 1 < bm.frames.length then bm.clock + 1 else 0 }

/-- Store back the frame at `i`. -/
def setFrame (bm : BufferManager) (i : Nat) (page : Page) : BufferManager :=
  { bm with frames := bm.frames.set i page }

/-- The loop of `BufferManager::get_unused_page`; it stops with the clock on the
frame it returns. -/
def getUnusedPageLoop : Nat → BufferManager → Option BufferManager
  | 0, _ => none
  | fuel + 1, bm =>
      match bm.frames[bm.clock]? with
      | none => none
      | some frame =>
          if frame.pins = 0 then
            if frame.secondChance = false then some bm
            else
              getUnusedPageLoop fuel
                (bm.setFrame bm.clock { frame with secondChance := false }).advance
          else getUnusedPageLoop fuel bm.advance

/-- `BufferManager::get_unused_page`, over two turns of the clock. -/
def getUnusedPage (bm : BufferManager) : Option BufferManager :=
  getUnusedPageLoop (2 * bm.frames.length) bm

/-- The victim of `get_page` taken out of `page_map`, if it is in it. -/
def evict (bm : BufferManager) (page : Page) : BufferManager :=
  if page.pageId.fileId ≠ FileId.unassigned then
    { bm with pageMap := bm.pageMap.erase page.pageId }
  else bm

/-- `BufferManager::get_page`.  The call returns the index of the frame, or
throws; the pool and the disk it leaves behind come with either. -/
def getPage (io : Io) (bm : BufferManager) (disk : Disk) (pageId : PageId) :
    Outcome Nat × BufferManager × Disk :=
  match bm.pageMap pageId with
  | some i =>
      -- page is in the buffer
      match bm.frames[i]? with
      | none => (.error (.undefinedBehaviour "page_map points outside the frames"), bm, disk)
      | some page => (.ok i, bm.setFrame i page.pin, disk)
  | none =>
      match bm.getUnusedPage with
      | none => (.error (.undefinedBehaviour "get_unused_page does not return"), bm, disk)
      | some bm =>
          match bm.frames[bm.clock]? with
          | none => (.error (.undefinedBehaviour "clock outside the frames"), bm, disk)
          | some page =>
              let bm := bm.evict page
              match (if page.dirty then System.flush io page disk else (.ok page, disk)) with
              | (.error fault, disk) => (.error fault, bm, disk)
              | (.ok page, disk) =>
                  match page.reassign pageId with
                  | .error fault => (.error fault, bm.setFrame bm.clock page, disk)
                  | .ok page =>
                      match readPage io pageId page.bytes disk with
                      | (.error fault, bytes, disk) =>
                          (.error fault, bm.setFrame bm.clock { page with bytes := bytes }, disk)
                      | (.ok (), bytes, disk) =>
                          (.ok bm.clock,
                            { bm.setFrame bm.clock { page with bytes := bytes } with
                              pageMap := bm.pageMap.insert pageId bm.clock },
                            disk)

/-- The loop of `BufferManager::flush` over the frames that are left.  Frames
flushed before a throw stay clean. -/
def flushFrames (io : Io) : List Page → Disk → Outcome Unit × List Page × Disk
  | [], disk => (.ok (), [], disk)
  | frame :: frames, disk =>
      if frame.pins ≠ 0 then
        (.error (.assertFailed "frames[i].pins == 0"), frame :: frames, disk)
      else
        match (if frame.dirty then System.flush io frame disk else (.ok frame, disk)) with
        | (.error fault, disk) => (.error fault, frame :: frames, disk)
        | (.ok frame, disk) =>
            match flushFrames io frames disk with
            | (result, frames, disk) => (result, frame :: frames, disk)

/-- `BufferManager::flush`. -/
def flush (io : Io) (bm : BufferManager) (disk : Disk) : Outcome Unit × BufferManager × Disk :=
  match flushFrames io bm.frames disk with
  | (result, frames, disk) => (result, { bm with frames := frames }, disk)

end BufferManager

end Iic3413Db.System
