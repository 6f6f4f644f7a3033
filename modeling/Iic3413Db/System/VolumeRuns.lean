/-
  System/VolumeRuns.lean --- runs of a volume: what the bytes of a page are does not depend on
  the life of the process they are read in.

  Frames of a deleted file are marked clean with bytes that are on no disk, so the pool does not
  refine a store over its own disk any more.  `Kept` says that it does over a disk that got those
  bytes; the two disks have the same file at every descriptor that still has a name.
-/
import Iic3413Db.System.Volumes

set_option autoImplicit false

namespace Iic3413Db.System

open Iic3413Db.Foundation Iic3413Db.Storage

/-! ## What a request leaves of the frames -/

section Frames

variable {bm bm' : BufferManager} {disk disk' : Disk} {pageId : PageId} {g : Page}

/-- `get_page` changes the page of one frame at most, and that one is clean. -/
theorem BufferManager.getPage_frames {io : Io} {i : Nat}
    (h : bm.getPage io disk pageId = (.ok i, bm', disk')) (hg : g ∈ bm'.frames) :
    (∃ f ∈ bm.frames, f.pageId = g.pageId ∧ f.dirty = g.dirty) ∨
      g.pageId = pageId ∧ g.dirty = false := by
  unfold BufferManager.getPage at h
  cases hmap : bm.pageMap pageId with
  | some j =>
      simp only [hmap] at h
      cases hframe : bm.frames[j]? with
      | none =>
          simp only [hframe] at h
          cases h
      | some page =>
          simp only [hframe] at h
          cases h
          rcases List.mem_or_eq_of_mem_set hg with hg | rfl
          · exact .inl ⟨g, hg, rfl, rfl⟩
          · exact .inl ⟨page, List.mem_of_getElem? hframe, rfl, rfl⟩
  | none =>
      simp only [hmap] at h
      cases hunused : bm.getUnusedPage with
      | none =>
          simp only [hunused] at h
          cases h
      | some bm₁ =>
          simp only [hunused] at h
          cases hframe : bm₁.frames[bm₁.clock]? with
          | none =>
              simp only [hframe] at h
              cases h
          | some page =>
              simp only [hframe] at h
              split at h
              · cases h
              · split at h
                · cases h
                · rename_i page'' hreassign
                  split at h
                  · cases h
                  · cases h
                    rcases List.mem_or_eq_of_mem_set hg with hg | rfl
                    · rw [BufferManager.evict_frames] at hg
                      obtain ⟨k, hk⟩ := List.mem_iff_getElem?.mp hg
                      obtain ⟨f, hf, hsame⟩ :=
                        (BufferManager.getUnusedPage_spec hunused).1.getElem? hk
                      refine .inl ⟨f, List.mem_of_getElem? hf, ?_, ?_⟩
                      · rw [hsame]
                      · rw [hsame]
                    · obtain ⟨⟨hclean, _, _⟩, rfl⟩ := Page.reassign_ok_iff.mp hreassign
                      exact .inr ⟨rfl, hclean⟩

/-- `flush` leaves every frame clean, on its page. -/
theorem BufferManager.flushFrames_clean {io : Io} {frames frames' : List Page}
    (h : BufferManager.flushFrames io frames disk = (.ok (), frames', disk')) (hg : g ∈ frames') :
    g.dirty = false ∧ ∃ f ∈ frames, f.pageId = g.pageId := by
  induction frames generalizing disk frames' with
  | nil =>
      cases h
      cases hg
  | cons f frames ih =>
      unfold BufferManager.flushFrames at h
      split at h
      · cases h
      · split at h
        · cases h
        · rename_i f' disk₁ hback
          cases hrest : BufferManager.flushFrames io frames disk₁ with
          | mk result rest =>
              obtain ⟨rest, disk₂⟩ := rest
              simp only [hrest] at h
              cases h
              rcases List.mem_cons.mp hg with rfl | hg
              · split at hback
                · unfold System.flush at hback
                  dsimp only at hback
                  split at hback
                  · cases hback
                    exact ⟨rfl, f, List.mem_cons_self, rfl⟩
                  · cases hback
                · rename_i hclean
                  cases hback
                  exact ⟨by simpa using hclean, _, List.mem_cons_self, rfl⟩
              · obtain ⟨hclean, f'', hf, hpage⟩ := ih hrest hg
                exact ⟨hclean, f'', List.mem_cons_of_mem _ hf, hpage⟩

variable {s s' : Pool} {r : Request}

/-- A request puts one page more into the frames at most, and makes the page of a handle dirty
at most. -/
theorem Pool.exec_frames (h : s.exec r = .ok s') (hg : g ∈ s'.manager.frames) :
    (∃ f ∈ s.manager.frames, f.pageId = g.pageId ∧ (g.dirty = true → f.dirty = true ∨
      ∃ handle offset data, r = .write handle offset data ∧
        s.manager.frames[handle.frame]? = some f)) ∨
      r = .getPage g.pageId ∧ g.dirty = false := by
  unfold Pool.exec at h
  cases r with
  | getPage pageId =>
      simp only [Pool.execIo] at h
      split at h
      · cases h
      · rename_i hget
        split at hget
        · cases hget
        · rename_i hcall
          cases hget
          cases h
          rcases BufferManager.getPage_frames hcall hg with ⟨f, hf, hpage, hdirty⟩ | ⟨rfl, hclean⟩
          · exact .inl ⟨f, hf, hpage, fun hyes => .inl (hdirty.trans hyes)⟩
          · exact .inr ⟨rfl, hclean⟩
  | write handle offset data =>
      simp only [Pool.execIo, Pool.onFrame] at h
      cases hframe : s.manager.frames[handle.frame]? with
      | none =>
          simp only [hframe] at h
          cases h
      | some page =>
          simp only [hframe] at h
          cases hwrite : page.write offset data with
          | error fault =>
              simp only [hwrite] at h
              cases h
          | ok page' =>
              simp only [hwrite] at h
              cases h
              rcases List.mem_or_eq_of_mem_set hg with hg | rfl
              · exact .inl ⟨g, hg, rfl, .inl⟩
              · refine .inl ⟨page, List.mem_of_getElem? hframe, ?_, fun _ =>
                  .inr ⟨handle, offset, data, rfl, hframe⟩⟩
                unfold Page.write at hwrite
                split at hwrite
                · cases hwrite
                  rfl
                · cases hwrite
  | unpin handle =>
      simp only [Pool.execIo, Pool.onFrame] at h
      cases hframe : s.manager.frames[handle.frame]? with
      | none =>
          simp only [hframe] at h
          cases h
      | some page =>
          simp only [hframe] at h
          cases hunpin : page.unpin with
          | error fault =>
              simp only [hunpin] at h
              cases h
          | ok page' =>
              simp only [hunpin] at h
              cases h
              rcases List.mem_or_eq_of_mem_set hg with hg | rfl
              · exact .inl ⟨g, hg, rfl, .inl⟩
              · obtain ⟨_, rfl⟩ := Page.unpin_ok_iff.mp hunpin
                exact .inl ⟨page, List.mem_of_getElem? hframe, rfl, .inl⟩
  | flush =>
      simp only [Pool.execIo, BufferManager.flush] at h
      split at h
      · cases h
      · rename_i hflush
        cases hcall : BufferManager.flushFrames Io.ok s.manager.frames s.disk with
        | mk result rest =>
            obtain ⟨frames, disk⟩ := rest
            simp only [hcall] at hflush
            cases hflush
            cases h
            obtain ⟨hclean, f, hf, hpage⟩ := BufferManager.flushFrames_clean hcall hg
            exact .inl ⟨f, hf, hpage, fun hyes => by rw [hclean] at hyes; cases hyes⟩

/-- A handle that is new is on the page that was asked for. -/
theorem Pool.exec_handles (h : s.exec r = .ok s') {handle : Handle} (hh : handle ∈ s'.handles) :
    handle ∈ s.handles ∨ r = .getPage handle.pageId := by
  unfold Pool.exec at h
  cases r with
  | getPage pageId =>
      simp only [Pool.execIo] at h
      split at h
      · cases h
      · rename_i hget
        split at hget
        · cases hget
        · cases hget
          cases h
          rcases List.mem_cons.mp hh with rfl | hh
          · exact .inr rfl
          · exact .inl hh
  | write _ _ _ =>
      simp only [Pool.execIo] at h
      split at h
      · cases h
      · rename_i hwrite
        split at hwrite
        · cases hwrite
        · cases hwrite
          cases h
          exact .inl hh
  | unpin handle' =>
      simp only [Pool.execIo] at h
      split at h
      · cases h
      · rename_i hunpin
        split at hunpin
        · cases hunpin
        · cases hunpin
          cases h
          exact .inl (List.mem_of_mem_erase hh)
  | flush =>
      simp only [Pool.execIo] at h
      split at h
      · cases h
      · rename_i hflush
        obtain ⟨_, rfl⟩ := Prod.mk.inj hflush
        cases h
        exact .inl hh

end Frames

/-! ## Files that come and go -/

section Files

open Pool (Coherent)

variable {store : Store} {s : Pool} {fileId : FileId}

/-- A file is opened under a descriptor no frame has a page of. -/
theorem Pool.Coherent.openFile (h : Coherent store s) {file : OpenFile} (hpaged : 4096 ∣ file.size)
    (hfree : ∀ f ∈ s.manager.frames, f.pageId.fileId ≠ fileId) :
    Coherent (fun pageId =>
        if pageId.fileId = fileId then file.page pageId.pageNumber.toNat else store pageId)
      { s with disk := Function.update s.disk fileId file } where
  clock := h.clock
  paged other := by
    show 4096 ∣ (Function.update s.disk fileId file other).size
    by_cases heq : other = fileId
    · rw [heq, Function.update_self]
      exact hpaged
    · rw [Function.update_of_ne heq]
      exact h.paged other
  mapped := h.mapped
  frame i f hf := by
    have hne : f.pageId.fileId ≠ fileId := hfree f (List.mem_of_getElem? hf)
    have hok := h.frame i f hf
    refine ⟨hok.idle, hok.fits, fun hassigned => ?_, fun hassigned hclean => ?_⟩
    · rw [if_neg hne]
      exact hok.bytes hassigned
    · rw [if_neg hne, ← hok.clean hassigned hclean]
      unfold Disk.pageOf
      dsimp only
      rw [Function.update_of_ne hne]
  unmapped pageId hpos hnone := by
    by_cases heq : pageId.fileId = fileId
    · rw [if_pos heq]
      unfold Disk.pageOf OpenFile.page
      dsimp only
      rw [heq, Function.update_self]
    · rw [if_neg heq, ← h.unmapped pageId hpos hnone]
      unfold Disk.pageOf
      dsimp only
      rw [Function.update_of_ne heq]
  handle := h.handle
  pins := h.pins

/-- The frame of a file that is being deleted. -/
def cleaned (fileId : FileId) (f : Page) : Page :=
  if f.pageId.fileId = fileId then { f with dirty := false } else f

/-- Over a disk that has the bytes, the frames of a file may be clean. -/
theorem Pool.Coherent.cleanFile (rest done : List Page) (s : Pool) (h : Coherent store s)
    (hframes : s.manager.frames = done ++ rest) :
    ∃ disk', Coherent store
        ⟨{ s.manager with frames := done ++ rest.map (cleaned fileId) }, disk', s.handles⟩ ∧
      ∀ other, other ≠ fileId → disk' other = s.disk other := by
  induction rest generalizing done s with
  | nil =>
      refine ⟨s.disk, ?_, fun _ _ => rfl⟩
      rw [List.map_nil, ← hframes]
      exact h
  | cons f rest ih =>
      have hf : s.manager.frames[done.length]? = some f := by rw [hframes]; simp
      -- the frame, written back if it is of the file
      obtain ⟨disk₁, h₁, hother⟩ : ∃ disk₁, Coherent store
          ⟨{ s.manager with frames := (done ++ [cleaned fileId f]) ++ rest }, disk₁, s.handles⟩ ∧
          ∀ other, other ≠ fileId → disk₁ other = s.disk other := by
        by_cases heq : f.pageId.fileId = fileId
        · obtain ⟨disk₁, hflush, _, hclean⟩ := h.clean hf
          have hset : s.manager.setFrame done.length { f with dirty := false } =
              { s.manager with frames := (done ++ [cleaned fileId f]) ++ rest } := by
            simp [BufferManager.setFrame, hframes, cleaned, heq]
          rw [hset] at hclean
          refine ⟨disk₁, hclean, fun other hne => ?_⟩
          have hdisk := congrArg Prod.snd hflush
          dsimp only at hdisk
          rw [← hdisk]
          split
          · exact flush_other fun hsame => hne (hsame.trans heq)
          · rfl
        · refine ⟨s.disk, ?_, fun _ _ => rfl⟩
          have hsame : (done ++ [cleaned fileId f]) ++ rest = s.manager.frames := by
            rw [cleaned, if_neg heq, hframes, List.append_assoc]
            rfl
          rw [hsame]
          exact h
      obtain ⟨disk₂, h₂, hrest⟩ := ih (done ++ [cleaned fileId f]) _ h₁ rfl
      refine ⟨disk₂, ?_, fun other hne => (hrest other hne).trans (hother other hne)⟩
      rw [List.map_cons, List.append_cons]
      exact h₂

theorem Pool.Coherent.dropFile (h : Coherent store s) :
    ∃ disk', Coherent store ⟨s.manager.dropFile fileId, disk', s.handles⟩ ∧
      ∀ other, other ≠ fileId → disk' other = s.disk other := by
  obtain ⟨disk', hclean, hother⟩ : ∃ disk', Coherent store
        ⟨{ s.manager with frames := [] ++ s.manager.frames.map (cleaned fileId) }, disk',
          s.handles⟩ ∧ ∀ other, other ≠ fileId → disk' other = s.disk other :=
    Coherent.cleanFile s.manager.frames [] s h rfl
  refine ⟨disk', ?_, hother⟩
  have hclock := hclean.clock
  refine hclean.swept ⟨?_, rfl⟩ ?_
  · show List.Forall₂ _ ([] ++ _) _
    rw [List.nil_append, BufferManager.dropFile, List.forall₂_map_left_iff,
      List.forall₂_map_right_iff]
    refine List.forall₂_same.mpr fun f _ => ?_
    unfold cleaned
    split
    · rfl
    · rfl
  · simpa [BufferManager.dropFile] using hclock

theorem BufferManager.dropFile_frames {bm : BufferManager} {g : Page}
    (hg : g ∈ (bm.dropFile fileId).frames) :
    ∃ f ∈ bm.frames, g.pageId = f.pageId ∧
      (g.dirty = true → f.dirty = true ∧ f.pageId.fileId ≠ fileId) := by
  obtain ⟨f, hf, rfl⟩ := List.mem_map.mp hg
  refine ⟨f, hf, ?_⟩
  split
  · exact ⟨rfl, fun hdirty => by cases hdirty⟩
  · rename_i hne
    exact ⟨rfl, fun hdirty => ⟨hdirty, hne⟩⟩

/-- When no frame is dirty, the disk has every page. -/
theorem Pool.Coherent.onDisk (h : Coherent store s)
    (hclean : ∀ f ∈ s.manager.frames, f.dirty = false) {pageId : PageId}
    (hpos : 0 ≤ pageId.pageNumber) : s.disk.pageOf pageId = store pageId := by
  cases hmap : s.manager.pageMap pageId with
  | none => exact h.unmapped pageId hpos hmap
  | some i =>
      obtain ⟨f, hf, rfl, hassigned⟩ := (h.mapped pageId i).mp hmap
      exact (h.frame i f hf).clean hassigned (hclean f (List.mem_of_getElem? hf))

end Files

/-! ## The invariant -/

/-- The volume shows the archive. -/
structure Kept (a : Archive) (v : Volume) : Prop where
  sound : v.folder.Sound
  names : v.folder.fileIds = a.names
  atRest : ∀ name, (∀ fileId, (name, fileId) ∉ a.names) →
    v.folder.page v.pool.disk name = a.contents name
  /-- the frames are of descriptors of this process, and the dirty ones of files with a name -/
  frames : ∀ f ∈ v.pool.manager.frames, f.pageId.fileId ≠ FileId.unassigned →
    f.pageId.fileId ∈ v.folder.descriptors
  dirty : DirtyOn v.folder.Live v.pool.manager.frames
  handles : ∀ h ∈ v.pool.handles, v.folder.Live h.pageId.fileId
  coherent : ∃ store disk, Pool.Coherent store { v.pool with disk := disk } ∧
    AgreeOn v.folder.Live v.pool.disk disk ∧
    ∀ name fileId, (name, fileId) ∈ a.names → ∀ n : Int, 0 ≤ n →
      store ⟨fileId, n⟩ = a.contents name n.toNat

section Steps

variable {a : Archive} {v : Volume}

theorem Kept.mem_names (h : Kept a v) {e : FileName × FileId} :
    e ∈ a.names ↔ e ∈ v.folder.fileIds := by
  rw [h.names]

theorem Kept.nameOf_eq (h : Kept a v) {name : FileName} {fileId : FileId}
    (hmem : (name, fileId) ∈ v.folder.fileIds) : a.nameOf fileId = some name := by
  rw [Archive.nameOf, ← h.names, h.sound.find_id hmem]
  rfl

/-- A new process shows the folder. -/
theorem Kept.fresh (h : v.Fresh) : Kept (.of v) v where
  sound := h.sound
  names := rfl
  atRest _ _ := rfl
  frames f hf hassigned := by
    obtain ⟨⟨data, _, hmanager⟩, _⟩ := h.pool
    rw [hmanager] at hf
    obtain ⟨bytes, _, rfl⟩ := List.mem_map.mp hf
    exact absurd rfl hassigned
  dirty f hf hdirty := by
    obtain ⟨⟨data, _, hmanager⟩, _⟩ := h.pool
    rw [hmanager] at hf
    obtain ⟨bytes, _, rfl⟩ := List.mem_map.mp hf
    cases hdirty
  handles handle hh := by
    rw [h.pool.2.2] at hh
    cases hh
  coherent := by
    refine ⟨_, _, Pool.coherent_fresh h.pool, fun _ _ => rfl, fun name fileId hmem => ?_⟩
    have hmem : (name, fileId) ∈ v.folder.fileIds := hmem
    rw [h.closed] at hmem
    cases hmem

/-- `get_file_id`. -/
theorem Kept.getFileId (h : Kept a v) {name : FileName} {fd : FileId}
    (hlegal : v.Legal (.getFileId name fd)) :
    ∃ v', v.exec (.getFileId name fd) = .ok v' ∧ Kept (a.apply (.getFileId name fd)) v' := by
  obtain ⟨hname, hfresh, hassigned⟩ := hlegal
  cases hfind : v.folder.find name with
  | some fileId =>
      have hopen : ∃ e ∈ a.names, e.1 = name :=
        ⟨(name, fileId), h.mem_names.mpr (Folder.find_some hfind), rfl⟩
      refine ⟨v, ?_, ?_⟩
      · rw [Volume.exec, Folder.getFileId_known hfind]
        rfl
      · rw [Archive.apply, if_pos hopen]
        exact h
  | none =>
      have hnone : ¬ ∃ e ∈ a.names, e.1 = name := by
        rintro ⟨e, he, heq⟩
        exact Folder.find_none hfind e (h.mem_names.mp he) heq
      obtain ⟨F, file, hget, hsound, hids, hdescriptors, hpaged, hpage⟩ :=
        h.sound.getFileId_new v.pool.disk hname hfind hfresh hassigned
      have hlive : ∀ fileId, v.folder.Live fileId → F.Live fileId := by
        rintro fileId ⟨name', hmem⟩
        exact ⟨name', by rw [hids]; exact List.mem_cons_of_mem _ hmem⟩
      have hother : ∀ fileId, v.folder.Live fileId → fileId ≠ fd := by
        rintro fileId hlive rfl
        exact hfresh (h.sound.live_descriptor hlive)
      refine ⟨⟨F, { v.pool with disk := Function.update v.pool.disk fd file }⟩, ?_, ?_⟩
      · rw [Volume.exec, hget]
        rfl
      rw [Archive.apply, if_neg hnone]
      refine ⟨hsound, by rw [hids, h.names], fun name' hclosed => ?_, fun f hf hassigned' => ?_,
        fun f hf hdirty => hlive _ (h.dirty f hf hdirty), fun handle hh => hlive _
        (h.handles handle hh), ?_⟩
      · funext n
        rw [hpage]
        exact congrFun (h.atRest name' fun fileId hmem =>
          hclosed fileId (List.mem_cons_of_mem _ hmem)) n
      · rw [hdescriptors]
        exact List.mem_cons_of_mem _ (h.frames f hf hassigned')
      · obtain ⟨store, disk, hcoherent, hagree, hstore⟩ := h.coherent
        have hfree : ∀ f ∈ v.pool.manager.frames, f.pageId.fileId ≠ fd := by
          rintro f hf rfl
          exact hfresh (h.frames f hf hassigned)
        refine ⟨_, _, hcoherent.openFile hpaged hfree, ?_, fun name' fileId hmem n hn => ?_⟩
        · rintro fileId ⟨name', hmem⟩
          show Function.update v.pool.disk fd file fileId = Function.update disk fd file fileId
          rw [hids] at hmem
          rcases List.mem_cons.mp hmem with hnew | hold
          · cases hnew
            rw [Function.update_self, Function.update_self]
          · have hne := hother fileId ⟨name', hold⟩
            rw [Function.update_of_ne hne, Function.update_of_ne hne]
            exact hagree fileId ⟨name', hold⟩
        · dsimp only
          rcases List.mem_cons.mp hmem with hnew | hold
          · cases hnew
            rw [if_pos rfl]
            have hrest := congrFun (h.atRest name fun fileId hopen =>
              hnone ⟨_, hopen, rfl⟩) n.toNat
            rw [← hrest, ← hpage, Folder.page, (hsound.opened name fd).mpr (by rw [hids]; simp)]
            dsimp only
            rw [Function.update_self]
          · rw [if_neg (hother fileId ⟨name', h.mem_names.mp hold⟩)]
            exact hstore name' fileId hold n hn

/-- Only the pages of the file of a written page change, and of it that page. -/
theorem Kept.written (h : Kept a v) {handle : Handle} {offset : Int} {data : List UInt8}
    {store : Store} (hpos : 0 ≤ handle.pageId.pageNumber)
    (hlive : v.folder.Live handle.pageId.fileId)
    (hstore : ∀ name fileId, (name, fileId) ∈ a.names → ∀ n : Int, 0 ≤ n →
      store ⟨fileId, n⟩ = a.contents name n.toNat) :
    (a.apply (.request (.write handle offset data))).names = a.names ∧
    (∀ name, (∀ fileId, (name, fileId) ∉ a.names) →
      (a.apply (.request (.write handle offset data))).contents name = a.contents name) ∧
    ∀ name fileId, (name, fileId) ∈ a.names → ∀ n : Int, 0 ≤ n →
      store.apply (.write handle offset data) ⟨fileId, n⟩ =
        (a.apply (.request (.write handle offset data))).contents name n.toNat := by
  obtain ⟨name, hmem⟩ := hlive
  have hnames := h.mem_names.mpr hmem
  obtain ⟨⟨fileId, number⟩, frame⟩ := handle
  simp only [Archive.apply, h.nameOf_eq hmem]
  refine ⟨trivial, fun name' hclosed => ?_, fun name' fileId' hmem' n hn => ?_⟩
  · refine Function.update_of_ne ?_ ..
    rintro rfl
    exact hclosed fileId hnames
  · rw [Store.apply]
    by_cases hname : name' = name
    · subst hname
      obtain rfl := h.sound.id_unique (h.mem_names.mp hmem') hmem
      rw [Function.update_self]
      by_cases hnumber : n = number
      · rw [hnumber, Function.update_self, Function.update_self, hstore name' fileId' hmem' _ hpos]
      · have hpage : (⟨fileId', n⟩ : PageId) ≠ ⟨fileId', number⟩ := fun heq =>
          hnumber (congrArg PageId.pageNumber heq)
        have hnat : n.toNat ≠ number.toNat := by
          dsimp only at hpos
          omega
        rw [Function.update_of_ne hpage, Function.update_of_ne hnat]
        exact hstore name' fileId' hmem' n hn
    · have hpage : (⟨fileId', n⟩ : PageId) ≠ ⟨fileId, number⟩ := by
        intro heq
        have hid : fileId' = fileId := congrArg PageId.fileId heq
        rw [hid] at hmem'
        exact hname (h.sound.name_unique (h.mem_names.mp hmem') hmem)
      rw [Function.update_of_ne hpage, Function.update_of_ne hname]
      exact hstore name' fileId' hmem' n hn

/-- A request to the pool. -/
theorem Kept.request (h : Kept a v) {r : Request} (hlegal : v.Legal (.request r))
    (hwrap : v.NoWrap (.request r)) :
    ∃ v', v.exec (.request r) = .ok v' ∧ Kept (a.apply (.request r)) v' := by
  obtain ⟨hpool, hopen⟩ := hlegal
  obtain ⟨store, disk, hcoherent, hagree, hstore⟩ := h.coherent
  -- the request over the other disk
  have hwrap' : Pool.NoWrap { v.pool with disk := disk } r := by
    cases r with
    | getPage pageId =>
        obtain ⟨hend, hcount⟩ := hwrap
        refine ⟨?_, hcount⟩
        unfold EndFits at hend ⊢
        rw [hagree _ (hopen pageId rfl)] at hend
        exact hend
    | write | unpin | flush => trivial
  obtain ⟨t, hexec, hcoherent'⟩ := Pool.exec_coherent hcoherent hpool hwrap'
  obtain ⟨disk', hexec', hagree'⟩ :=
    AgreeOn.exec (s := { v.pool with disk := disk }) hagree h.dirty hopen hexec
  have hframe : ∀ handle ∈ v.pool.handles, ∀ f, v.pool.manager.frames[handle.frame]? = some f →
      f.pageId = handle.pageId := by
    intro handle hh f hf
    obtain ⟨f', hf', hpage, _⟩ := hcoherent.frame_of_handle hh
    have hf' : v.pool.manager.frames[handle.frame]? = some f' := hf'
    rw [hf] at hf'
    cases hf'
    exact hpage
  -- what the archive becomes
  obtain ⟨hnames, hrest, hstore'⟩ : (a.apply (.request r)).names = a.names ∧
      (∀ name, (∀ fileId, (name, fileId) ∉ a.names) →
        (a.apply (.request r)).contents name = a.contents name) ∧
      ∀ name fileId, (name, fileId) ∈ a.names → ∀ n : Int, 0 ≤ n →
        store.apply r ⟨fileId, n⟩ = (a.apply (.request r)).contents name n.toNat := by
    cases r with
    | getPage | unpin | flush => exact ⟨rfl, fun _ _ => rfl, hstore⟩
    | write handle offset data =>
        obtain ⟨f, hf, hpage, hassigned, _⟩ := hcoherent.frame_of_handle hpool.1
        have hfits := (hcoherent.frame _ f hf).fits (hpage ▸ hassigned)
        rw [hpage] at hfits
        exact h.written hfits.1 (h.handles handle hpool.1) hstore
  refine ⟨⟨v.folder, { t with disk := disk' }⟩, ?_, h.sound, h.names.trans hnames.symm, ?_,
    fun g hg hassigned => ?_, fun g hg hdirty => ?_, fun handle hh => ?_, _, t.disk, hcoherent',
    hagree', ?_⟩
  · rw [Volume.exec]
    have hsame : Pool.exec v.pool r = .ok { t with disk := disk' } := hexec'
    rw [hsame]
    rfl
  · intro name hclosed
    rw [hnames] at hclosed
    rw [hrest name hclosed, ← h.atRest name hclosed]
    exact h.sound.page_atRest _ (fun fileId hmem => hclosed fileId (h.mem_names.mpr hmem)) _
  · rcases Pool.exec_frames hexec hg with ⟨f, hf, hpage, _⟩ | ⟨hget, _⟩
    · rw [← hpage] at hassigned ⊢
      exact h.frames f hf hassigned
    · exact h.sound.live_descriptor (hopen _ hget)
  · rcases Pool.exec_frames hexec hg with ⟨f, hf, hpage, hold⟩ | ⟨_, hclean⟩
    · rw [← hpage]
      rcases hold hdirty with hdirty | ⟨handle, offset, data, rfl, hat⟩
      · exact h.dirty f hf hdirty
      · rw [hframe handle hpool.1 f hat]
        exact h.handles handle hpool.1
    · rw [hclean] at hdirty
      cases hdirty
  · rcases Pool.exec_handles hexec hh with hold | hget
    · exact h.handles handle hold
    · exact hopen _ hget
  · intro name fileId hmem n hn
    rw [hnames] at hmem
    exact hstore' name fileId hmem n hn

/-- `delete_file`. -/
theorem Kept.deleteFile (h : Kept a v) {fileId : FileId} (hlegal : v.Legal (.deleteFile fileId)) :
    ∃ v', v.exec (.deleteFile fileId) = .ok v' ∧ Kept (a.apply (.deleteFile fileId)) v' := by
  obtain ⟨⟨name, hmem⟩, hunpinned⟩ := hlegal
  obtain ⟨hsound, hids, hdescriptors, hpage⟩ := h.sound.deleteFile v.pool.disk hmem
  have happly : a.apply (.deleteFile fileId) =
      ⟨a.names.erase (name, fileId), Function.update a.contents name fun _ => zeroPage⟩ := by
    simp only [Archive.apply, h.nameOf_eq hmem]
  -- the names of the other descriptors stay
  have hkept : ∀ name' fileId', (name', fileId') ∈ v.folder.fileIds → fileId' ≠ fileId →
      (name', fileId') ∈ (v.folder.deleteFile fileId).fileIds := by
    intro name' fileId' hmem' hne
    rw [hids]
    exact (List.mem_erase_of_ne fun heq => hne (congrArg Prod.snd heq)).mpr hmem'
  have hother : ∀ name' fileId', (name', fileId') ∈ (v.folder.deleteFile fileId).fileIds →
      (name', fileId') ∈ v.folder.fileIds ∧ name' ≠ name ∧ fileId' ≠ fileId := by
    intro name' fileId' hmem'
    rw [hids] at hmem'
    have hold := List.mem_of_mem_erase hmem'
    have hnodup : v.folder.fileIds.Nodup := .of_map _ h.sound.names
    have hne : (name', fileId') ≠ (name, fileId) := by
      intro heq
      rw [heq] at hmem'
      exact hnodup.not_mem_erase hmem'
    refine ⟨hold, fun heq => ?_, fun heq => ?_⟩
    · rw [heq] at hold hne
      exact hne (congrArg _ (h.sound.id_unique hold hmem))
    · rw [heq] at hold hne
      exact hne (congrArg (·, fileId) (h.sound.name_unique hold hmem))
  refine ⟨_, rfl, ?_⟩
  rw [happly]
  refine ⟨hsound, by rw [hids, h.names], fun name' hclosed => ?_, fun g hg hassigned => ?_,
    fun g hg hdirty => ?_, fun handle hh => ?_, ?_⟩
  · funext n
    rw [hpage]
    dsimp only at hclosed ⊢
    by_cases heq : name' = name
    · rw [if_pos heq, heq, Function.update_self]
    · rw [if_neg heq, Function.update_of_ne heq]
      refine congrFun (h.atRest name' fun fileId' hopen => hclosed fileId' ?_) n
      exact (List.mem_erase_of_ne fun hpair => heq (congrArg Prod.fst hpair)).mpr hopen
  · obtain ⟨f, hf, hsame, _⟩ := BufferManager.dropFile_frames hg
    rw [hsame] at hassigned ⊢
    rw [hdescriptors]
    exact h.frames f hf hassigned
  · obtain ⟨f, hf, hsame, hold⟩ := BufferManager.dropFile_frames hg
    obtain ⟨hdirty, hne⟩ := hold hdirty
    obtain ⟨name', hmem'⟩ := h.dirty f hf hdirty
    rw [hsame]
    exact ⟨name', hkept name' _ hmem' hne⟩
  · obtain ⟨name', hmem'⟩ := h.handles handle hh
    exact ⟨name', hkept name' _ hmem' (hunpinned handle hh)⟩
  · obtain ⟨store, disk, hcoherent, hagree, hstore⟩ := h.coherent
    obtain ⟨disk', hdropped, hdisk⟩ : ∃ disk', Pool.Coherent store
        ⟨v.pool.manager.dropFile fileId, disk', v.pool.handles⟩ ∧
        ∀ other, other ≠ fileId → disk' other = disk other := hcoherent.dropFile
    refine ⟨store, disk', hdropped, ?_, fun name' fileId' hmem' n hn => ?_⟩
    · rintro fileId' ⟨name', hmem'⟩
      obtain ⟨hold, _, hne⟩ := hother name' fileId' hmem'
      rw [hdisk fileId' hne]
      exact hagree fileId' ⟨name', hold⟩
    · have hmem' : (name', fileId') ∈ a.names.erase (name, fileId) := hmem'
      rw [← h.names, ← hids] at hmem'
      obtain ⟨hold, hne, _⟩ := hother name' fileId' hmem'
      dsimp only
      rw [Function.update_of_ne hne]
      exact hstore name' fileId' (h.mem_names.mpr hold) n hn

/-- The process ends, and another begins. -/
theorem Kept.restart (h : Kept a v) {data : List PageBytes} (hlegal : v.Legal (.restart data)) :
    ∃ v', v.exec (.restart data) = .ok v' ∧ Kept (a.apply (.restart data)) v' := by
  obtain ⟨hdata, hhandles⟩ := hlegal
  obtain ⟨store, disk, hcoherent, hagree, hstore⟩ := h.coherent
  have hpins : ∀ f ∈ v.pool.manager.frames, f.pins = 0 := by
    intro f hf
    obtain ⟨i, hi⟩ := List.mem_iff_getElem?.mp hf
    have hcount := hcoherent.pins i f hi
    have hnone : ({ v.pool with disk := disk } : Pool).handles = [] := hhandles
    rw [hnone] at hcount
    exact hcount
  obtain ⟨frames, disk', hflush, hflushed⟩ :=
    Pool.flushFrames_coherent v.pool.manager.frames [] _ hcoherent rfl hpins
  obtain ⟨result, frames', d, d', hreal, hother, hagree'⟩ := hagree.flushFrames Io.ok h.dirty
  rw [hflush] at hother
  obtain ⟨rfl, hrest⟩ := Prod.mk.inj hother
  obtain ⟨rfl, rfl⟩ := Prod.mk.inj hrest
  have hpage : ∀ name fileId, (name, fileId) ∈ v.folder.fileIds → ∀ n,
      (d fileId).page n = a.contents name n := by
    intro name fileId hmem n
    have hondisk : Disk.pageOf _ ⟨fileId, n⟩ = store ⟨fileId, n⟩ := hflushed.onDisk
      (fun f hf => (BufferManager.flushFrames_clean hflush hf).1) (Int.natCast_nonneg n)
    rw [hstore name fileId (h.mem_names.mpr hmem) n (Int.natCast_nonneg n)] at hondisk
    rw [hagree' fileId ⟨name, hmem⟩]
    exact hondisk
  have hpaged : ∀ fileId, v.folder.Live fileId → 4096 ∣ (d fileId).size := by
    intro fileId hlive
    rw [hagree' fileId hlive]
    exact hflushed.paged fileId
  have hempty : Disk.Paged fun _ => OpenFile.empty := fun _ => dvd_zero _
  obtain ⟨hsound, hsame⟩ := h.sound.reopen hpaged fun _ => .empty
  refine ⟨_, by rw [Volume.exec, BufferManager.flush, hreal], hsound, rfl, fun name _ => ?_,
    fun f hf hassigned => ?_, fun f hf hdirty => ?_, fun handle hh => ?_, ?_⟩
  · funext n
    rw [hsame]
    by_cases hopen : ∃ fileId, (name, fileId) ∈ v.folder.fileIds
    · obtain ⟨fileId, hmem⟩ := hopen
      rw [Folder.page, (h.sound.opened name fileId).mpr hmem]
      exact hpage name fileId hmem n
    · have hclosed : ∀ fileId, (name, fileId) ∉ v.folder.fileIds := fun fileId hmem =>
        hopen ⟨fileId, hmem⟩
      rw [h.sound.page_atRest d hclosed v.pool.disk]
      exact congrFun (h.atRest name fun fileId hmem => hclosed fileId (h.mem_names.mp hmem)) n
  · obtain ⟨bytes, _, rfl⟩ := List.mem_map.mp hf
    exact absurd rfl hassigned
  · obtain ⟨bytes, _, rfl⟩ := List.mem_map.mp hf
    cases hdirty
  · cases hh
  · refine ⟨_, _, Pool.coherent_fresh ⟨⟨data, hdata, rfl⟩, hempty, rfl⟩, fun _ _ => rfl,
      fun name fileId hmem => ?_⟩
    cases hmem

/-- A legal event in the range of the arithmetic succeeds, and the volume shows what it makes of
the archive. -/
theorem Kept.exec (h : Kept a v) {e : VolumeEvent} (hlegal : v.Legal e) (hwrap : v.NoWrap e) :
    ∃ v', v.exec e = .ok v' ∧ Kept (a.apply e) v' := by
  cases e with
  | getFileId name fd => exact h.getFileId hlegal
  | request r => exact h.request hlegal hwrap
  | deleteFile fileId => exact h.deleteFile hlegal
  | restart data => exact h.restart hlegal

end Steps

/-! ## Runs -/

namespace Volume

/-- The files that are open are those of the archive, each under one name and one descriptor,
and every handle shows what the archive has for its page. -/
structure Shows (v : Volume) (a : Archive) : Prop where
  names : v.folder.fileIds = a.names
  distinct : (a.names.map Prod.fst).Nodup ∧ (a.names.map Prod.snd).Nodup
  view : ∀ h ∈ v.pool.handles, ∃ name f, (name, h.pageId.fileId) ∈ a.names ∧
    v.pool.manager.frames[h.frame]? = some f ∧ f.pageId = h.pageId ∧ 0 < f.pins ∧
    f.bytes = a.contents name h.pageId.pageNumber.toNat

theorem shows_of_kept {a : Archive} {v : Volume} (h : Kept a v) : v.Shows a where
  names := h.names
  distinct := by
    rw [← h.names]
    exact ⟨h.sound.names, h.sound.ids⟩
  view handle hh := by
    obtain ⟨store, disk, hcoherent, _, hstore⟩ := h.coherent
    obtain ⟨f, hf, hpage, hassigned, hpins, hbytes⟩ := hcoherent.frame_of_handle hh
    have hfits := (hcoherent.frame _ f hf).fits (hpage ▸ hassigned)
    rw [hpage] at hfits
    obtain ⟨name, hmem⟩ := h.handles handle hh
    have hname := h.mem_names.mpr hmem
    exact ⟨name, f, hname, hf, hpage, hpins,
      hbytes.trans (hstore name _ hname handle.pageId.pageNumber hfits.1)⟩

/-- An empty folder, and a pool of one frame. -/
def emptyVolume : Volume := ⟨⟨[], fun _ => none, [], []⟩, Pool.onePool⟩

theorem emptyVolume_fresh : emptyVolume.Fresh where
  sound := ⟨.nil, .nil, fun _ he => (by cases he), fun _ _ => ⟨fun h => (by cases h), fun h => (by cases h)⟩,
    fun _ he => (by cases he), fun _ he => (by cases he), fun _ _ h => by cases h⟩
  closed := rfl
  pool := Pool.onePool_fresh

end Volume

end Iic3413Db.System
