/-
  System/Volumes.lean --- the pages of a database by the name of their file, over any number of
  lives of the server process.

  A `Volume` is the folder and the pool over the files the process has open.  The heap files of
  the catalog call `get_file_id` and `get_page`; an abort calls `delete_file`; the end of the
  process runs `~BufferManager`, and the next one begins with an empty `filename2file_id` and a
  new pool.  The abstract model is an `Archive`: what every page of every name holds, and the
  names that are open.
-/
import Iic3413Db.System.BufferRuns
import Iic3413Db.System.Folder

set_option autoImplicit false

namespace Iic3413Db.System

open Iic3413Db.Foundation Iic3413Db.Storage

/-- The frames of `BufferManager::delete_file`: nothing of the file is to be written any more. -/
def BufferManager.dropFile (bm : BufferManager) (fileId : FileId) : BufferManager :=
  { bm with frames := bm.frames.map fun f =>
      if f.pageId.fileId = fileId then { f with dirty := false, secondChance := false } else f }

/-- The folder, and the pool of the process that has it open. -/
structure Volume where
  folder : Folder
  pool : Pool

/-- What happens to a volume. -/
inductive VolumeEvent where
  /-- `get_file_id`; if the file has to be opened, the kernel returns `fd` -/
  | getFileId (name : FileName) (fd : FileId)
  | request (r : Request)
  /-- `BufferManager::delete_file` -/
  | deleteFile (fileId : FileId)
  /-- the process ends, and the next one gets `data` for its frames -/
  | restart (data : List PageBytes)

namespace Volume

/-- A volume goes through an event, with system calls that succeed. -/
def exec (v : Volume) : VolumeEvent → Outcome Volume
  | .getFileId name fd => do
      let (_, folder, disk) ← v.folder.getFileId v.pool.disk name (some fd)
      .ok ⟨folder, { v.pool with disk := disk }⟩
  | .request r => do
      let pool ← v.pool.exec r
      .ok { v with pool := pool }
  | .deleteFile fileId =>
      .ok ⟨v.folder.deleteFile fileId,
        { v.pool with manager := v.pool.manager.dropFile fileId }⟩
  | .restart data =>
      match v.pool.manager.flush Io.ok v.pool.disk with
      | (.error fault, _, _) => .error fault
      | (.ok (), _, disk) =>
          .ok ⟨v.folder.reopen disk, ⟨BufferManager.create data, fun _ => .empty, []⟩⟩

/-- What the server may do: open files by a name, with a descriptor that is not in use; ask for
pages of files it has open; delete a file none of whose pages is pinned; stop with no page
pinned. -/
def Legal (v : Volume) : VolumeEvent → Prop
  | .getFileId name fd => name ≠ [] ∧ fd ∉ v.folder.descriptors ∧ fd ≠ FileId.unassigned
  | .request r => v.pool.Legal r ∧ ∀ pageId, r = .getPage pageId → v.folder.Live pageId.fileId
  | .deleteFile fileId => v.folder.Live fileId ∧ ∀ h ∈ v.pool.handles, h.pageId.fileId ≠ fileId
  | .restart data => data ≠ [] ∧ v.pool.handles = []

/-- Where the `int` arithmetic of the source is exact. -/
def NoWrap (v : Volume) : VolumeEvent → Prop
  | .request r => v.pool.NoWrap r
  | .getFileId _ _ | .deleteFile _ | .restart _ => True

/-- A process that has just opened a folder of whole pages. -/
structure Fresh (v : Volume) : Prop where
  sound : v.folder.Sound
  closed : v.folder.fileIds = []
  pool : v.pool.Fresh

/-- The volume under legal events in the range of the arithmetic. -/
def machine : Machine Volume VolumeEvent where
  init := Fresh
  step v e v' := v.Legal e ∧ v.NoWrap e ∧ v.exec e = .ok v'

end Volume

/-! ## The abstract model -/

/-- What every page of every file holds, and the descriptors of the files that are open. -/
structure Archive where
  names : List (FileName × FileId)
  contents : FileName → Nat → PageBytes

namespace Archive

/-- The name a descriptor was opened under. -/
def nameOf (a : Archive) (fileId : FileId) : Option FileName :=
  (a.names.find? fun e => e.2 = fileId).map Prod.fst

/-- A write changes one page of one file, and a deleted file is empty; nothing else changes
contents, the end of a process least of all. -/
def apply (a : Archive) : VolumeEvent → Archive
  | .getFileId name fd =>
      if ∃ e ∈ a.names, e.1 = name then a else { a with names := (name, fd) :: a.names }
  | .request (.write h offset data) =>
      match a.nameOf h.pageId.fileId with
      | none => a
      | some name =>
          let n := h.pageId.pageNumber.toNat
          let pages := Function.update (a.contents name) n
            ((a.contents name n).splice offset.toNat data)
          { a with contents := Function.update a.contents name pages }
  | .request (.getPage _) | .request (.unpin _) | .request .flush => a
  | .deleteFile fileId =>
      match a.nameOf fileId with
      | none => a
      | some name =>
          ⟨a.names.erase (name, fileId), Function.update a.contents name fun _ => zeroPage⟩
  | .restart _ => { a with names := [] }

/-- The contents of the folder a process opens. -/
def of (v : Volume) : Archive := ⟨v.folder.fileIds, v.folder.page v.pool.disk⟩

end Archive

/-! ## Disks that agree where a file has a name -/

/-- The two disks have the same files at these descriptors. -/
def AgreeOn (live : FileId → Prop) (disk disk' : Disk) : Prop :=
  ∀ fileId, live fileId → disk fileId = disk' fileId

/-- Two calls return the same, and leave disks that agree. -/
def Alike {α : Type} (live : FileId → Prop) (x y : α × Disk) : Prop :=
  ∃ a disk disk', x = (a, disk) ∧ y = (a, disk') ∧ AgreeOn live disk disk'

/-- The same, of calls with a result and a second one. -/
def Alike₂ {α β : Type} (live : FileId → Prop) (x y : α × β × Disk) : Prop :=
  ∃ a b disk disk', x = (a, b, disk) ∧ y = (a, b, disk') ∧ AgreeOn live disk disk'

/-- A dirty frame is of a file with a name. -/
def DirtyOn (live : FileId → Prop) (frames : List Page) : Prop :=
  ∀ f ∈ frames, f.dirty = true → live f.pageId.fileId

section Agreement

variable {live : FileId → Prop} {disk disk' : Disk} {bm : BufferManager}

theorem AgreeOn.update (h : AgreeOn live disk disk') (fileId : FileId) (file : OpenFile) :
    AgreeOn live (Function.update disk fileId file) (Function.update disk' fileId file) := by
  intro other hlive
  by_cases heq : other = fileId
  · rw [heq, Function.update_self, Function.update_self]
  · rw [Function.update_of_ne heq, Function.update_of_ne heq]
    exact h other hlive

/-- `flush` looks at the file of its page alone. -/
theorem AgreeOn.flush (h : AgreeOn live disk disk') (io : Io) {page : Page}
    (hlive : live page.pageId.fileId) :
    Alike live (System.flush io page disk) (System.flush io page disk') := by
  unfold System.flush
  rw [h _ hlive]
  dsimp only
  split
  · exact ⟨_, _, _, rfl, rfl, h.update _ _⟩
  · exact ⟨_, _, _, rfl, rfl, h.update _ _⟩

theorem flush_other {io : Io} {page : Page} {fileId : FileId}
    (hne : fileId ≠ page.pageId.fileId) : (System.flush io page disk).2 fileId = disk fileId := by
  unfold System.flush
  dsimp only
  split
  · exact Function.update_of_ne hne ..
  · exact Function.update_of_ne hne ..

/-- So does `read_page`. -/
theorem AgreeOn.readPage (h : AgreeOn live disk disk') (io : Io) {pageId : PageId}
    (bytes : PageBytes) (hlive : live pageId.fileId) :
    Alike₂ live (System.readPage io pageId bytes disk) (System.readPage io pageId bytes disk') := by
  unfold System.readPage
  rw [h _ hlive]
  dsimp only
  split
  · split
    · exact ⟨_, _, _, _, rfl, rfl, h.update _ _⟩
    · exact ⟨_, _, _, _, rfl, rfl, h.update _ _⟩
  · split
    · exact ⟨_, _, _, _, rfl, rfl, h.update _ _⟩
    · exact ⟨_, _, _, _, rfl, rfl, h.update _ _⟩

/-- Writing a frame back, if it must be. -/
theorem AgreeOn.writeBack (h : AgreeOn live disk disk') (io : Io) {page : Page}
    (hdirty : page.dirty = true → live page.pageId.fileId) :
    Alike live (if page.dirty then System.flush io page disk else (.ok page, disk))
      (if page.dirty then System.flush io page disk' else (.ok page, disk')) := by
  by_cases hyes : page.dirty = true
  · rw [if_pos hyes, if_pos hyes]
    exact h.flush io (hdirty hyes)
  · rw [if_neg hyes, if_neg hyes]
    exact ⟨_, _, _, rfl, rfl, h⟩

theorem AgreeOn.getPage (h : AgreeOn live disk disk') (io : Io) {pageId : PageId}
    (hdirty : DirtyOn live bm.frames) (hlive : live pageId.fileId) :
    Alike₂ live (bm.getPage io disk pageId) (bm.getPage io disk' pageId) := by
  unfold BufferManager.getPage
  cases bm.pageMap pageId with
  | some i =>
      dsimp only
      cases bm.frames[i]? with
      | none => exact ⟨_, _, _, _, rfl, rfl, h⟩
      | some page => exact ⟨_, _, _, _, rfl, rfl, h⟩
  | none =>
      dsimp only
      cases hunused : bm.getUnusedPage with
      | none => exact ⟨_, _, _, _, rfl, rfl, h⟩
      | some bm' =>
          dsimp only
          cases hpage : bm'.frames[bm'.clock]? with
          | none => exact ⟨_, _, _, _, rfl, rfl, h⟩
          | some page =>
              obtain ⟨f, hf, hsame⟩ :=
                (BufferManager.getUnusedPage_spec hunused).1.getElem? hpage
              have hvictim : page.dirty = true → live page.pageId.fileId := by
                rw [hsame]
                exact hdirty f (List.mem_of_getElem? hf)
              obtain ⟨result, d, d', hback, hback', hagree⟩ := h.writeBack io hvictim
              simp only [hback, hback']
              cases result with
              | error fault => exact ⟨_, _, _, _, rfl, rfl, hagree⟩
              | ok page' =>
                  dsimp only
                  cases page'.reassign pageId with
                  | error fault => exact ⟨_, _, _, _, rfl, rfl, hagree⟩
                  | ok page'' =>
                      obtain ⟨read, bytes, d₁, d₁', hread, hread', hafter⟩ :=
                        hagree.readPage io page''.bytes hlive
                      simp only [hread, hread']
                      cases read with
                      | error fault => exact ⟨_, _, _, _, rfl, rfl, hafter⟩
                      | ok _ => exact ⟨_, _, _, _, rfl, rfl, hafter⟩

theorem AgreeOn.flushFrames (h : AgreeOn live disk disk') (io : Io) {frames : List Page}
    (hdirty : DirtyOn live frames) :
    Alike₂ live (BufferManager.flushFrames io frames disk)
      (BufferManager.flushFrames io frames disk') := by
  induction frames generalizing disk disk' with
  | nil => exact ⟨_, _, _, _, rfl, rfl, h⟩
  | cons f frames ih =>
      obtain ⟨hf, hrest⟩ := List.forall_mem_cons.mp hdirty
      unfold BufferManager.flushFrames
      split
      · exact ⟨_, _, _, _, rfl, rfl, h⟩
      · obtain ⟨result, d, d', hback, hback', hagree⟩ := h.writeBack io hf
        simp only [hback, hback']
        cases result with
        | error fault => exact ⟨_, _, _, _, rfl, rfl, hagree⟩
        | ok f' =>
            obtain ⟨flushed, rest, d₁, d₁', hflushed, hflushed', hafter⟩ := ih hagree hrest
            simp only [hflushed, hflushed']
            exact ⟨_, _, _, _, rfl, rfl, hafter⟩

/-- A request that succeeds over one disk does the same over the other. -/
theorem AgreeOn.exec {s t : Pool} {r : Request} (h : AgreeOn live disk s.disk)
    (hdirty : DirtyOn live s.manager.frames)
    (hlive : ∀ pageId, r = .getPage pageId → live pageId.fileId) (hexec : s.exec r = .ok t) :
    ∃ disk', Pool.exec { s with disk := disk } r = .ok { t with disk := disk' } ∧
      AgreeOn live disk' t.disk := by
  unfold Pool.exec at hexec ⊢
  cases r with
  | getPage pageId =>
      obtain ⟨result, bm, d, d', hget, hget', hagree⟩ :=
        h.getPage Io.ok hdirty (hlive pageId rfl)
      simp only [Pool.execIo, hget'] at hexec
      simp only [Pool.execIo, hget]
      cases result with
      | error fault => cases hexec
      | ok i =>
          cases hexec
          exact ⟨d, rfl, hagree⟩
  | write handle offset data =>
      simp only [Pool.execIo, Pool.onFrame] at hexec ⊢
      cases hframe : s.manager.frames[handle.frame]? with
      | none =>
          simp only [hframe] at hexec
          cases hexec
      | some page =>
          simp only [hframe] at hexec ⊢
          cases hwrite : page.write offset data with
          | error fault =>
              simp only [hwrite] at hexec
              cases hexec
          | ok page' =>
              simp only [hwrite] at hexec ⊢
              cases hexec
              exact ⟨disk, rfl, h⟩
  | unpin handle =>
      simp only [Pool.execIo, Pool.onFrame] at hexec ⊢
      cases hframe : s.manager.frames[handle.frame]? with
      | none =>
          simp only [hframe] at hexec
          cases hexec
      | some page =>
          simp only [hframe] at hexec ⊢
          cases hunpin : page.unpin with
          | error fault =>
              simp only [hunpin] at hexec
              cases hexec
          | ok page' =>
              simp only [hunpin] at hexec ⊢
              cases hexec
              exact ⟨disk, rfl, h⟩
  | flush =>
      obtain ⟨result, frames, d, d', hflush, hflush', hagree⟩ := h.flushFrames Io.ok hdirty
      simp only [Pool.execIo, BufferManager.flush, hflush'] at hexec
      simp only [Pool.execIo, BufferManager.flush, hflush]
      cases result with
      | error fault => cases hexec
      | ok _ =>
          cases hexec
          exact ⟨d, rfl, hagree⟩

end Agreement

end Iic3413Db.System
