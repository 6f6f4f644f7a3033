/-
  System/FileManager.lean --- `system/file_manager.cc` over POSIX files.

  `OpenFile` is an open file description: an offset and contents.  Contents are a
  total function that is zero past the size, carried as a field, so a hole and
  the bytes `ftruncate` adds need no case of their own.  `lseek`, `write`, `read`
  and `ftruncate` follow POSIX on a regular file; whether the last three succeed
  is the environment's choice, an `Io`.

  The byte offsets are the source's `int` products, wrapped at 32 bits.
-/
import Iic3413Db.Storage.Page

set_option autoImplicit false

namespace Iic3413Db.System

open Iic3413Db.Foundation Iic3413Db.Storage

/-! ## POSIX files -/

/-- An open regular file. -/
structure OpenFile where
  offset : Nat
  size : Nat
  data : Nat → UInt8
  zeroPastEnd : ∀ i, size ≤ i → data i = 0

namespace OpenFile

/-- A file just created by `open(O_CREAT)`. -/
def empty : OpenFile := ⟨0, 0, fun _ => 0, fun _ _ => rfl⟩

/-- `lseek(fd, offset, SEEK_SET)`; a negative offset is refused and moves nothing. -/
def lseekSet (f : OpenFile) (offset : Int) : OpenFile :=
  if offset < 0 then f else { f with offset := offset.toNat }

/-- `lseek(fd, 0, SEEK_END)`. -/
def lseekEnd (f : OpenFile) : OpenFile := { f with offset := f.size }

/-- `write(fd, bytes, 4096)` at the current offset. -/
def write (f : OpenFile) (bytes : PageBytes) : OpenFile where
  offset := f.offset + 4096
  size := max f.size (f.offset + 4096)
  data i := if f.offset ≤ i ∧ i < f.offset + 4096 then bytes.byteAt (i - f.offset) else f.data i
  zeroPastEnd i hi := by
    rw [if_neg (by omega)]
    exact f.zeroPastEnd i (by omega)

/-- The bytes `read(fd, bytes, 4096)` delivers at the current offset; the buffer
keeps its old contents past the end of the file. -/
def read (f : OpenFile) (bytes : PageBytes) : PageBytes := fun i =>
  if f.offset + i.val < f.size then f.data (f.offset + i.val) else bytes i

/-- `ftruncate(fd, length)` with a non-negative length. -/
def ftruncate (f : OpenFile) (length : Nat) : OpenFile where
  offset := f.offset
  size := length
  data i := if i < length then f.data i else 0
  zeroPastEnd i hi := if_neg (by omega)

end OpenFile

/-- The open files, by descriptor. -/
abbrev Disk : Type := FileId → OpenFile

/-- What the environment lets the system calls of one request do: `false` makes
the call return `-1`, and `garbage` is what a failed `read` leaves in the
buffer. -/
structure Io where
  writeOk : Bool
  truncateOk : Bool
  readOk : Bool
  garbage : PageBytes

/-- Every system call succeeds. -/
def Io.ok : Io := ⟨true, true, true, fun _ => 0⟩

/-! ## `FileManager` -/

/-- The all-zero page of `memset(bytes, 0, Page::SIZE)`. -/
def zeroPage : PageBytes := fun _ => 0

/-- `FileManager::flush`. -/
def flush (io : Io) (page : Page) (disk : Disk) : Outcome Page × Disk :=
  let f := (disk page.pageId.fileId).lseekSet (int32 (page.pageId.pageNumber * 4096))
  if io.writeOk then
    (.ok { page with dirty := false },
      Function.update disk page.pageId.fileId (f.write page.bytes))
  else
    (.error (.runtimeError "Could not write into file when flushing page"),
      Function.update disk page.pageId.fileId f)

/-- `FileManager::read_page`.  The second component is the buffer afterwards,
also when the call throws. -/
def readPage (io : Io) (pageId : PageId) (bytes : PageBytes) (disk : Disk) :
    Outcome Unit × PageBytes × Disk :=
  let f := (disk pageId.fileId).lseekEnd
  let fileSize : Nat := f.size
  let f := f.lseekSet (int32 (pageId.pageNumber * 4096))
  if ((fileSize / 4096 : Nat) : Int) ≤ pageId.pageNumber then
    -- new file page, write zeros
    let length := int32 (4096 * (pageId.pageNumber + 1))
    if io.truncateOk ∧ 0 ≤ length then
      (.ok (), zeroPage, Function.update disk pageId.fileId (f.ftruncate length.toNat))
    else
      (.error (.runtimeError "Could not write into file"), zeroPage,
        Function.update disk pageId.fileId f)
  else if io.readOk then
    let f' : OpenFile := { f with offset := min f.size (f.offset + 4096) }
    (.ok (), f.read bytes, Function.update disk pageId.fileId f')
  else
    (.error (.runtimeError "Could not read file page"), io.garbage,
      Function.update disk pageId.fileId f)

/-! ## Pages of a file -/

/-- The contents of a page on disk; a page past the end of the file is zero. -/
def Disk.pageOf (disk : Disk) (pageId : PageId) : PageBytes := fun i =>
  (disk pageId.fileId).data (4096 * pageId.pageNumber.toNat + i.val)

/-- Every file is a whole number of pages long. -/
def Disk.Paged (disk : Disk) : Prop := ∀ fileId, 4096 ∣ (disk fileId).size

/-- The byte offset of the page, an `int` product, fits in 31 bits. -/
def OffsetFits (pageId : PageId) : Prop :=
  0 ≤ pageId.pageNumber ∧ pageId.pageNumber * 4096 < 2 ^ 31

/-- Reading the page in needs no `ftruncate` to a length of `2^31` bytes or more:
either the end of the page fits in 31 bits too, or the file has the page. -/
def EndFits (disk : Disk) (pageId : PageId) : Prop :=
  (pageId.pageNumber + 1) * 4096 < 2 ^ 31 ∨
    4096 * (pageId.pageNumber + 1) ≤ (disk pageId.fileId).size

@[simp] theorem lseekEnd_size (f : OpenFile) : f.lseekEnd.size = f.size := rfl

theorem lseekSet_of_nonneg {f : OpenFile} {offset : Int} (h : 0 ≤ offset) :
    f.lseekSet offset = { f with offset := offset.toNat } := if_neg (by omega)

/-- The offset `flush` and `read_page` seek to is the page's own. -/
theorem lseekSet_page {f : OpenFile} {pageId : PageId} (h : OffsetFits pageId) :
    f.lseekSet (int32 (pageId.pageNumber * 4096)) =
      { f with offset := 4096 * pageId.pageNumber.toNat } := by
  obtain ⟨hlo, hhi⟩ := h
  rw [int32_of_range (by omega) hhi, lseekSet_of_nonneg (by omega)]
  congr 1
  omega

/-! ## What the two calls do when the system calls succeed -/

section Succeeding

variable (io : Io) {disk : Disk} {pageId : PageId}

/-- `flush` returns the page clean, and puts its bytes at its own place on disk:
every other page of every file keeps its contents, and files stay whole. -/
theorem flush_spec (disk : Disk) {page : Page} (hio : io.writeOk = true) (hfit : OffsetFits page.pageId) :
    ∃ disk', flush io page disk = (.ok { page with dirty := false }, disk') ∧
      disk'.pageOf page.pageId = page.bytes ∧
      (∀ other, 0 ≤ other.pageNumber → other ≠ page.pageId →
        disk'.pageOf other = disk.pageOf other) ∧
      (∀ fileId, (disk fileId).size ≤ (disk' fileId).size) ∧
      (disk.Paged → disk'.Paged) := by
  have hflush : flush io page disk = (.ok { page with dirty := false },
      Function.update disk page.pageId.fileId
        (OpenFile.write { disk page.pageId.fileId with
          offset := 4096 * page.pageId.pageNumber.toNat } page.bytes)) := by
    rw [flush, lseekSet_page hfit, if_pos hio]
  refine ⟨_, hflush, ?_, ?_, ?_, ?_⟩
  · funext i
    have hin : 4096 * page.pageId.pageNumber.toNat ≤ 4096 * page.pageId.pageNumber.toNat + i.val ∧
        4096 * page.pageId.pageNumber.toNat + i.val
          < 4096 * page.pageId.pageNumber.toNat + 4096 := by omega
    simp [Disk.pageOf, OpenFile.write, Block.byteAt]
  · intro other hpos hne
    funext i
    by_cases hfile : other.fileId = page.pageId.fileId
    · have hnum : other.pageNumber ≠ page.pageId.pageNumber := by
        intro hnum
        exact hne (by cases other; cases hp : page.pageId; simp_all)
      have hlo := hfit.1
      have hout : ¬ (4096 * page.pageId.pageNumber.toNat ≤ 4096 * other.pageNumber.toNat + i.val ∧
          4096 * other.pageNumber.toNat + i.val
            < 4096 * page.pageId.pageNumber.toNat + 4096) := by omega
      simp only [Disk.pageOf, hfile, Function.update_self, OpenFile.write]
      rw [if_neg hout]
    · simp [Disk.pageOf, Function.update_of_ne hfile]
  · intro fileId
    by_cases hfile : fileId = page.pageId.fileId
    · subst hfile
      simp [OpenFile.write]
    · simp [Function.update_of_ne hfile]
  · intro hpaged fileId
    by_cases hfile : fileId = page.pageId.fileId
    · subst hfile
      have hdvd := hpaged page.pageId.fileId
      simp only [Function.update_self, OpenFile.write]
      rcases le_total (disk page.pageId.fileId).size
        (4096 * page.pageId.pageNumber.toNat + 4096) with hle | hle
      · rw [max_eq_right hle]; omega
      · rw [max_eq_left hle]; exact hdvd
    · simpa [Function.update_of_ne hfile] using hpaged fileId

/-- `read_page` delivers the page's contents, zero when the file does not reach
it, and changes the contents of no page. -/
theorem readPage_spec (bytes : PageBytes) (htrunc : io.truncateOk = true)
    (hread : io.readOk = true) (hfit : OffsetFits pageId) (hend : EndFits disk pageId)
    (hpaged : disk.Paged) :
    ∃ disk', readPage io pageId bytes disk = (.ok (), disk.pageOf pageId, disk') ∧
      (∀ other, disk'.pageOf other = disk.pageOf other) ∧
      (∀ fileId, (disk fileId).size ≤ (disk' fileId).size) ∧ disk'.Paged := by
  obtain ⟨hlo, hhi⟩ := hfit
  obtain ⟨k, hk⟩ := hpaged pageId.fileId
  have hsize := lseekEnd_size (disk pageId.fileId)
  unfold readPage
  by_cases hnew : (((disk pageId.fileId).lseekEnd.size / 4096 : Nat) : Int) ≤ pageId.pageNumber
  · -- first touch of a page past the end: the file grows to hold it
    have hlen : int32 (4096 * (pageId.pageNumber + 1)) = 4096 * (pageId.pageNumber + 1) := by
      rcases hend with hend | hend
      · exact int32_of_range (by omega) (by omega)
      · omega
    have hgrow : (disk pageId.fileId).size ≤ 4096 * (pageId.pageNumber.toNat + 1) := by omega
    have hlenNat : (4096 * (pageId.pageNumber + 1)).toNat
        = 4096 * (pageId.pageNumber.toNat + 1) := by omega
    have hzero : zeroPage = disk.pageOf pageId := by
      funext i
      exact ((disk pageId.fileId).zeroPastEnd _ (by omega)).symm
    rw [if_pos hnew, hlen, if_pos ⟨htrunc, by omega⟩, lseekSet_page ⟨hlo, hhi⟩, hlenNat, hzero]
    refine ⟨_, rfl, ?_, ?_, ?_⟩
    · intro other
      funext i
      by_cases hfile : other.fileId = pageId.fileId
      · simp only [Disk.pageOf, hfile, Function.update_self, OpenFile.ftruncate]
        split
        · rfl
        · exact ((disk pageId.fileId).zeroPastEnd _ (by omega)).symm
      · simp [Disk.pageOf, Function.update_of_ne hfile]
    · intro fileId
      by_cases hfile : fileId = pageId.fileId
      · subst hfile
        simpa [OpenFile.ftruncate] using hgrow
      · simp [Function.update_of_ne hfile]
    · intro fileId
      by_cases hfile : fileId = pageId.fileId
      · subst hfile
        simp [OpenFile.ftruncate]
      · simpa [Function.update_of_ne hfile] using hpaged fileId
  · have hold : 4096 * pageId.pageNumber.toNat + 4096 ≤ (disk pageId.fileId).size := by omega
    rw [if_neg hnew, if_pos hread, lseekSet_page ⟨hlo, hhi⟩]
    have hbytes : OpenFile.read { (disk pageId.fileId).lseekEnd with
        offset := 4096 * pageId.pageNumber.toNat } bytes = disk.pageOf pageId := by
      funext i
      simp only [OpenFile.read, Disk.pageOf]
      rw [if_pos (by omega)]
      rfl
    rw [hbytes]
    refine ⟨_, rfl, ?_, ?_, ?_⟩
    · intro other
      funext i
      by_cases hfile : other.fileId = pageId.fileId
      · simp only [Disk.pageOf, hfile, Function.update_self]
        rfl
      · simp [Disk.pageOf, Function.update_of_ne hfile]
    · intro fileId
      by_cases hfile : fileId = pageId.fileId
      · subst hfile; simp
      · simp [Function.update_of_ne hfile]
    · intro fileId
      by_cases hfile : fileId = pageId.fileId
      · subst hfile
        simpa using hpaged pageId.fileId
      · simpa [Function.update_of_ne hfile] using hpaged fileId

end Succeeding

end Iic3413Db.System
