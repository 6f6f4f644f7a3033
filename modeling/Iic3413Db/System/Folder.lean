/-
  System/Folder.lean --- the folder of a database, and the files a process has opened in it by
  name.

  A name of the folder leads to contents that are at rest or to the descriptor the process has
  opened; `get_file_id` opens a name once, so an `OpenFile` stands for a file and for its one
  descriptor.  Which descriptor a call of `open` returns is the kernel's choice.  `delete_file`
  takes the name away; the descriptor stays open until the process ends.
-/
import Iic3413Db.System.Catalog
import Iic3413Db.System.FileManager

set_option autoImplicit false

namespace Iic3413Db.System

open Iic3413Db.Foundation Iic3413Db.Storage

/-- The name of a file, as its bytes. -/
abbrev FileName : Type := List UInt8

/-- Where the contents of a file of the folder are. -/
inductive FolderEntry where
  | atRest (file : OpenFile)
  | opened (fileId : FileId)

/-- The folder, with what `class FileManager` and the kernel know of it. -/
structure Folder where
  /-- `db_folder` -/
  path : FileName
  entries : FileName → Option FolderEntry
  /-- `filename2file_id`, in any order -/
  fileIds : List (FileName × FileId)
  /-- every descriptor the process has opened -/
  descriptors : List FileId

/-- Page `n` of a file; it is zero past the end. -/
def OpenFile.page (file : OpenFile) (n : Nat) : PageBytes := fun i => file.data (4096 * n + i.val)

namespace Folder

/-! ## The calls -/

/-- `get_file_path`. -/
def getFilePath (F : Folder) (name : FileName) : FileName := F.path ++ [47] ++ name

/-- `open(file_path, O_RDWR | O_CREAT, ..)`; `none` is the call that returns `-1`.  A second
descriptor on one file is not in the model. -/
def openFile (F : Folder) (disk : Disk) (name : FileName) (fd : Option FileId) :
    Outcome (FileId × Folder × Disk) :=
  match fd, F.entries name with
  | none, _ =>
      .error (.runtimeError s!"Could not open file {Catalog.text (F.getFilePath name)}")
  | some _, some (.opened _) => .error (.undefinedBehaviour "a file that is open already")
  | some fileId, some (.atRest file) =>
      .ok (fileId,
        { F with
          entries := Function.update F.entries name (some (.opened fileId))
          descriptors := fileId :: F.descriptors },
        Function.update disk fileId { file with offset := 0 })
  | some fileId, none =>
      .ok (fileId,
        { F with
          entries := Function.update F.entries name (some (.opened fileId))
          descriptors := fileId :: F.descriptors },
        Function.update disk fileId .empty)

/-- `filename2file_id.find(filename)`. -/
def find (F : Folder) (name : FileName) : Option FileId :=
  (F.fileIds.find? fun e => e.1 = name).map Prod.snd

/-- `FileManager::get_file_id`; `fd` is what `open` is to return. -/
def getFileId (F : Folder) (disk : Disk) (name : FileName) (fd : Option FileId) :
    Outcome (FileId × Folder × Disk) :=
  match F.find name with
  | some fileId => .ok (fileId, F, disk)
  | none => do
      let (fileId, F, disk) ← F.openFile disk name fd
      .ok (fileId, { F with fileIds := (name, fileId) :: F.fileIds }, disk)

/-- `FileManager::delete_file`. -/
def deleteFile (F : Folder) (fileId : FileId) : Folder :=
  match F.fileIds.find? fun e => e.2 = fileId with
  | none => F
  | some e =>
      let F := { F with fileIds := F.fileIds.erase e }
      if e.1 = [] then F else { F with entries := Function.update F.entries e.1 none }

/-- What a name leads to once the process has ended. -/
def settled (disk : Disk) : FolderEntry → FolderEntry
  | .atRest file => .atRest file
  | .opened fileId => .atRest (disk fileId)

/-- The process ends, and another one opens the folder. -/
def reopen (F : Folder) (disk : Disk) : Folder :=
  { F with
    entries := fun name => (F.entries name).map (settled disk)
    fileIds := []
    descriptors := [] }

/-! ## Contents by name -/

/-- What page `n` of a file shows, wherever the file is; a name without a file shows zeros. -/
def page (F : Folder) (disk : Disk) (name : FileName) (n : Nat) : PageBytes :=
  match F.entries name with
  | none => zeroPage
  | some (.atRest file) => file.page n
  | some (.opened fileId) => (disk fileId).page n

/-- The file has a name for as long as `filename2file_id` has it. -/
structure Sound (F : Folder) : Prop where
  names : (F.fileIds.map Prod.fst).Nodup
  ids : (F.fileIds.map Prod.snd).Nodup
  nonempty : ∀ e ∈ F.fileIds, e.1 ≠ []
  opened : ∀ name fileId, F.entries name = some (.opened fileId) ↔ (name, fileId) ∈ F.fileIds
  descriptors : ∀ e ∈ F.fileIds, e.2 ∈ F.descriptors
  assigned : ∀ fileId ∈ F.descriptors, fileId ≠ FileId.unassigned
  /-- a file at rest is a whole number of pages -/
  paged : ∀ name file, F.entries name = some (.atRest file) → 4096 ∣ file.size

/-- Some name of the folder leads to the descriptor. -/
def Live (F : Folder) (fileId : FileId) : Prop := ∃ name, (name, fileId) ∈ F.fileIds

section Calls

variable {F : Folder} (disk : Disk) {name : FileName} {fileId : FileId}

theorem Sound.name_unique (h : F.Sound) {name' : FileName} (hmem : (name, fileId) ∈ F.fileIds)
    (hmem' : (name', fileId) ∈ F.fileIds) : name = name' :=
  congrArg Prod.fst (List.inj_on_of_nodup_map h.ids hmem hmem' rfl)

theorem Sound.id_unique (h : F.Sound) {fileId' : FileId} (hmem : (name, fileId) ∈ F.fileIds)
    (hmem' : (name, fileId') ∈ F.fileIds) : fileId = fileId' :=
  congrArg Prod.snd (List.inj_on_of_nodup_map h.names hmem hmem' rfl)

theorem Sound.live_descriptor (h : F.Sound) (hlive : F.Live fileId) : fileId ∈ F.descriptors := by
  obtain ⟨name, hmem⟩ := hlive
  exact h.descriptors _ hmem

theorem Sound.find_eq (h : F.Sound) (hmem : (name, fileId) ∈ F.fileIds) :
    F.find name = some fileId := by
  cases hfind : F.fileIds.find? fun e => e.1 = name with
  | none =>
      have hnot := List.find?_eq_none.mp hfind _ hmem
      exact absurd (decide_eq_true rfl) hnot
  | some e =>
      have hname : e.1 = name := by simpa using List.find?_some hfind
      have he := List.mem_of_find?_eq_some hfind
      obtain ⟨name', fileId'⟩ := e
      cases hname
      rw [find, hfind, h.id_unique hmem he]
      rfl

theorem Sound.find_id (h : F.Sound) (hmem : (name, fileId) ∈ F.fileIds) :
    (F.fileIds.find? fun e => e.2 = fileId) = some (name, fileId) := by
  cases hfind : F.fileIds.find? fun e => e.2 = fileId with
  | none =>
      have hnot := List.find?_eq_none.mp hfind _ hmem
      exact absurd (decide_eq_true rfl) hnot
  | some e =>
      have hid : e.2 = fileId := by simpa using List.find?_some hfind
      have he := List.mem_of_find?_eq_some hfind
      obtain ⟨name', fileId'⟩ := e
      cases hid
      rw [h.name_unique he hmem]

/-- What a file that is not open shows does not depend on the open ones. -/
theorem Sound.page_atRest (h : F.Sound) (hclosed : ∀ fileId, (name, fileId) ∉ F.fileIds)
    (disk' : Disk) : F.page disk name = F.page disk' name := by
  funext n
  unfold page
  cases hentry : F.entries name with
  | none => rfl
  | some entry =>
      cases entry with
      | atRest file => rfl
      | opened fileId => exact absurd ((h.opened name fileId).mp hentry) (hclosed fileId)

theorem find_some (h : F.find name = some fileId) : (name, fileId) ∈ F.fileIds := by
  obtain ⟨e, hfind, hid⟩ := Option.map_eq_some_iff.mp h
  have hname : e.1 = name := by simpa using List.find?_some hfind
  have he := List.mem_of_find?_eq_some hfind
  rw [← hname, ← hid]
  exact he

theorem find_none (h : F.find name = none) : ∀ e ∈ F.fileIds, e.1 ≠ name := by
  intro e he heq
  have hnot := List.find?_eq_none.mp (Option.map_eq_none_iff.mp h) e he
  exact hnot (decide_eq_true heq)

/-- Opening a name that is not open gives its contents the descriptor; every page of every name
shows what it showed. -/
theorem Sound.getFileId_new (h : F.Sound) (hname : name ≠ []) (hfind : F.find name = none)
    (hfresh : fileId ∉ F.descriptors) (hassigned : fileId ≠ FileId.unassigned) :
    ∃ F' file, F.getFileId disk name (some fileId) =
        .ok (fileId, F', Function.update disk fileId file) ∧ F'.Sound ∧
      F'.fileIds = (name, fileId) :: F.fileIds ∧ F'.descriptors = fileId :: F.descriptors ∧
      4096 ∣ file.size ∧
      ∀ name' n, F'.page (Function.update disk fileId file) name' n = F.page disk name' n := by
  have hclosed : ∀ fileId', F.entries name ≠ some (.opened fileId') := by
    intro fileId' hopened
    exact find_none hfind _ ((h.opened name fileId').mp hopened) rfl
  -- the file, whether it was there or has just been created
  obtain ⟨file, hopen, hsize, hpage⟩ : ∃ file,
      F.openFile disk name (some fileId) = .ok (fileId,
        { F with
          entries := Function.update F.entries name (some (.opened fileId))
          descriptors := fileId :: F.descriptors }, Function.update disk fileId file) ∧
      4096 ∣ file.size ∧ ∀ n, file.page n = F.page disk name n := by
    cases hentry : F.entries name with
    | none =>
        refine ⟨.empty, by simp only [openFile, hentry], dvd_zero _, fun n => ?_⟩
        rw [page, hentry]
        rfl
    | some entry =>
        cases entry with
        | atRest file =>
            refine ⟨{ file with offset := 0 }, by simp only [openFile, hentry], h.paged name file hentry,
              fun n => ?_⟩
            rw [page, hentry]
            rfl
        | opened fileId' => exact absurd hentry (hclosed fileId')
  have hfree : ∀ e ∈ F.fileIds, e.2 ≠ fileId := fun e he heq =>
    hfresh (heq ▸ h.descriptors e he)
  have hget : F.getFileId disk name (some fileId) = .ok (fileId,
      { F with
        entries := Function.update F.entries name (some (.opened fileId))
        fileIds := (name, fileId) :: F.fileIds
        descriptors := fileId :: F.descriptors }, Function.update disk fileId file) := by
    rw [getFileId, hfind]
    simp only [hopen, Outcome.ok_bind]
  refine ⟨_, file, hget, ⟨?_, ?_, ?_, ?_, ?_, ?_, ?_⟩, rfl, rfl, hsize, fun name' n => ?_⟩
  · refine List.nodup_cons.mpr ⟨fun hmem => ?_, h.names⟩
    obtain ⟨e, he, heq⟩ := List.mem_map.mp hmem
    exact find_none hfind e he heq
  · refine List.nodup_cons.mpr ⟨fun hmem => ?_, h.ids⟩
    obtain ⟨e, he, heq⟩ := List.mem_map.mp hmem
    exact hfree e he heq
  · exact List.forall_mem_cons.mpr ⟨hname, h.nonempty⟩
  · intro name' fileId'
    show Function.update F.entries name (some (.opened fileId)) name' = _ ↔ _
    rw [List.mem_cons]
    by_cases heq : name' = name
    · subst heq
      rw [Function.update_self]
      constructor
      · intro hsome
        cases hsome
        exact .inl rfl
      · rintro (hpair | hmem)
        · cases hpair
          rfl
        · exact absurd rfl (find_none hfind _ hmem)
    · rw [Function.update_of_ne heq, h.opened]
      exact ⟨.inr, fun hcase => hcase.resolve_left fun hpair => heq (congrArg Prod.fst hpair)⟩
  · exact List.forall_mem_cons.mpr ⟨List.mem_cons_self, fun e he =>
      List.mem_cons_of_mem _ (h.descriptors e he)⟩
  · exact List.forall_mem_cons.mpr ⟨hassigned, h.assigned⟩
  · intro name' file' hentry
    change Function.update F.entries name (some (.opened fileId)) name' = _ at hentry
    by_cases heq : name' = name
    · rw [heq, Function.update_self] at hentry
      cases hentry
    · rw [Function.update_of_ne heq] at hentry
      exact h.paged name' file' hentry
  · by_cases heq : name' = name
    · subst heq
      rw [page]
      dsimp only
      rw [Function.update_self]
      dsimp only
      rw [Function.update_self]
      exact hpage n
    · rw [page, page]
      dsimp only
      rw [Function.update_of_ne heq]
      cases hentry : F.entries name' with
      | none => rfl
      | some entry =>
          cases entry with
          | atRest file' => rfl
          | opened fileId' =>
              have hmem := (h.opened name' fileId').mp hentry
              dsimp only
              rw [Function.update_of_ne (hfree _ hmem)]

variable {disk} in
theorem getFileId_known {fd : Option FileId} (hfind : F.find name = some fileId) :
    F.getFileId disk name fd = .ok (fileId, F, disk) := by
  rw [getFileId, hfind]

/-- A deleted file shows zeros, and every other file what it showed. -/
theorem Sound.deleteFile (h : F.Sound) (hmem : (name, fileId) ∈ F.fileIds) :
    (F.deleteFile fileId).Sound ∧ (F.deleteFile fileId).fileIds = F.fileIds.erase (name, fileId) ∧
      (F.deleteFile fileId).descriptors = F.descriptors ∧
      ∀ name' n, (F.deleteFile fileId).page disk name' n =
        if name' = name then zeroPage else F.page disk name' n := by
  have hnodup : F.fileIds.Nodup := .of_map _ h.names
  have hdelete : F.deleteFile fileId =
      { F with
        fileIds := F.fileIds.erase (name, fileId)
        entries := Function.update F.entries name none } := by
    rw [Folder.deleteFile, h.find_id hmem]
    exact if_neg (h.nonempty _ hmem)
  have hsub : ∀ e ∈ F.fileIds.erase (name, fileId), e ∈ F.fileIds := fun e =>
    List.mem_of_mem_erase
  have hother : ∀ name', name' ≠ name → ∀ fileId',
      (name', fileId') ∈ F.fileIds.erase (name, fileId) ↔ (name', fileId') ∈ F.fileIds := by
    intro name' hne fileId'
    exact List.mem_erase_of_ne fun heq => hne (congrArg Prod.fst heq)
  rw [hdelete]
  refine ⟨⟨?_, ?_, fun e he => h.nonempty e (hsub e he), ?_, fun e he =>
    h.descriptors e (hsub e he), h.assigned, ?_⟩, rfl, rfl, fun name' n => ?_⟩
  · exact h.names.sublist (List.Sublist.map _ List.erase_sublist)
  · exact h.ids.sublist (List.Sublist.map _ List.erase_sublist)
  · intro name' fileId'
    show Function.update F.entries name none name' = _ ↔ _
    by_cases heq : name' = name
    · subst heq
      rw [Function.update_self]
      refine ⟨fun hnone => (by cases hnone), fun hleft => ?_⟩
      have hid := h.id_unique (hsub _ hleft) hmem
      rw [hid] at hleft
      exact absurd hleft hnodup.not_mem_erase
    · rw [Function.update_of_ne heq, h.opened, hother name' heq]
  · intro name' file hentry
    change Function.update F.entries name none name' = _ at hentry
    by_cases heq : name' = name
    · rw [heq, Function.update_self] at hentry
      cases hentry
    · rw [Function.update_of_ne heq] at hentry
      exact h.paged name' file hentry
  · rw [page, page]
    dsimp only
    by_cases heq : name' = name
    · rw [if_pos heq, heq, Function.update_self]
    · rw [if_neg heq, Function.update_of_ne heq]

variable {disk} in
/-- After the end of the process each name shows what it showed, and nothing is open. -/
theorem Sound.reopen (h : F.Sound) (hpaged : ∀ fileId, F.Live fileId → 4096 ∣ (disk fileId).size)
    (disk' : Disk) :
    (F.reopen disk).Sound ∧
      ∀ name n, (F.reopen disk).page disk' name n = F.page disk name n := by
  refine ⟨⟨.nil, .nil, ?_, fun name fileId => ?_, ?_, ?_, fun name file hentry => ?_⟩,
    fun name n => ?_⟩
  · exact fun e he => by cases he
  · constructor
    · intro hentry
      obtain ⟨entry, _, hsettled⟩ := Option.map_eq_some_iff.mp hentry
      cases entry with
      | atRest file => cases hsettled
      | opened fileId' => cases hsettled
    · intro hmem
      cases hmem
  · exact fun e he => by cases he
  · exact fun fileId hmem => by cases hmem
  · obtain ⟨entry, hbefore, hsettled⟩ := Option.map_eq_some_iff.mp hentry
    cases entry with
    | atRest file' =>
        cases hsettled
        exact h.paged name _ hbefore
    | opened fileId =>
        cases hsettled
        exact hpaged fileId ⟨name, (h.opened name fileId).mp hbefore⟩
  · rw [page, page, Folder.reopen]
    dsimp only
    cases F.entries name with
    | none => rfl
    | some entry =>
        cases entry with
        | atRest file => rfl
        | opened fileId => rfl

end Calls

end Folder

end Iic3413Db.System
