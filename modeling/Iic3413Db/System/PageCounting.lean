/-
  System/PageCounting.lean --- the system calls of `flush` and `read_page`, one at a time,
  and the `lseek` of `count_pages` between them.

  The session that holds `pages_mutex` is inside one of the two calls; `count_pages` takes no
  mutex.  All of them share the offset of an open file.
-/
import Iic3413Db.Foundation.Machine
import Iic3413Db.System.FileManager

set_option autoImplicit false

namespace Iic3413Db.System

open Iic3413Db.Foundation Iic3413Db.Storage

/-! ## States -/

/-- Where the session that holds `pages_mutex` is. -/
inductive Phase where
  | idle
  /-- in `flush`, before `write` -/
  | flushing (page : Page)
  /-- in `read_page`, before `fstat` -/
  | measuring (pageId : PageId) (bytes : PageBytes)
  /-- in `read_page`, with the size of the file -/
  | seeking (pageId : PageId) (bytes : PageBytes) (fileSize : Nat)
  /-- in `read_page`, before `read` or `ftruncate` -/
  | reading (pageId : PageId) (bytes : PageBytes) (fileSize : Nat)

/-- What a call that returned has transferred. -/
inductive Transfer where
  | flushed (page : Page) (before after : OpenFile)
  /-- the page is one the file has -/
  | delivered (pageId : PageId) (bytes : PageBytes) (file : OpenFile)

/-- The open files, the session with the mutex, and what it has transferred so far. -/
structure PageIo where
  disk : Disk
  phase : Phase
  history : List Transfer

/-- Three `lseek`s, `fstat`, `write` and what ends `read_page`.  The flag of the last two is
whether the call succeeds. -/
inductive SystemCall where
  | seekToFlush (page : Page)
  | write (ok : Bool)
  | seekToEnd (pageId : PageId) (bytes : PageBytes)
  | fstat
  | seekToRead
  | transfer (ok : Bool)
  /-- `count_pages`, by any session -/
  | countPages (fileId : FileId)

/-- One system call. -/
inductive PageIo.Step : PageIo → SystemCall → PageIo → Prop
  | seekToFlush {s : PageIo} (page : Page) (hs : s.phase = .idle) :
      Step s (.seekToFlush page)
        { s with
          disk := Function.update s.disk page.pageId.fileId
            ((s.disk page.pageId.fileId).lseekSet (int32 (page.pageId.pageNumber * 4096)))
          phase := .flushing page }
  | write {s : PageIo} {page : Page} (hs : s.phase = .flushing page) :
      Step s (.write true)
        ⟨Function.update s.disk page.pageId.fileId
            ((s.disk page.pageId.fileId).write page.bytes), .idle,
          .flushed page (s.disk page.pageId.fileId)
            ((s.disk page.pageId.fileId).write page.bytes) :: s.history⟩
  | writeThrows {s : PageIo} {page : Page} (hs : s.phase = .flushing page) :
      Step s (.write false) { s with phase := .idle }
  | seekToEnd {s : PageIo} (pageId : PageId) (bytes : PageBytes) (hs : s.phase = .idle) :
      Step s (.seekToEnd pageId bytes)
        { s with
          disk := Function.update s.disk pageId.fileId (s.disk pageId.fileId).lseekEnd
          phase := .measuring pageId bytes }
  | fstat {s : PageIo} {pageId : PageId} {bytes : PageBytes}
      (hs : s.phase = .measuring pageId bytes) :
      Step s .fstat { s with phase := .seeking pageId bytes (s.disk pageId.fileId).size }
  | seekToRead {s : PageIo} {pageId : PageId} {bytes : PageBytes} {fileSize : Nat}
      (hs : s.phase = .seeking pageId bytes fileSize) :
      Step s .seekToRead
        { s with
          disk := Function.update s.disk pageId.fileId
            ((s.disk pageId.fileId).lseekSet (int32 (pageId.pageNumber * 4096)))
          phase := .reading pageId bytes fileSize }
  | ftruncate {s : PageIo} {pageId : PageId} {bytes : PageBytes} {fileSize : Nat}
      (hs : s.phase = .reading pageId bytes fileSize)
      (hnew : ((fileSize / 4096 : Nat) : Int) ≤ pageId.pageNumber)
      (hlength : 0 ≤ int32 (4096 * (pageId.pageNumber + 1))) :
      Step s (.transfer true)
        { s with
          disk := Function.update s.disk pageId.fileId
            ((s.disk pageId.fileId).ftruncate (int32 (4096 * (pageId.pageNumber + 1))).toNat)
          phase := .idle }
  | read {s : PageIo} {pageId : PageId} {bytes : PageBytes} {fileSize : Nat}
      (hs : s.phase = .reading pageId bytes fileSize)
      (hold : pageId.pageNumber < ((fileSize / 4096 : Nat) : Int)) :
      Step s (.transfer true)
        ⟨Function.update s.disk pageId.fileId
            { s.disk pageId.fileId with
              offset := min (s.disk pageId.fileId).size ((s.disk pageId.fileId).offset + 4096) },
          .idle,
          .delivered pageId ((s.disk pageId.fileId).read bytes) (s.disk pageId.fileId) ::
            s.history⟩
  | transferThrows {s : PageIo} {pageId : PageId} {bytes : PageBytes} {fileSize : Nat}
      (hs : s.phase = .reading pageId bytes fileSize) :
      Step s (.transfer false) { s with phase := .idle }
  | countPages {s : PageIo} (fileId : FileId) :
      Step s (.countPages fileId)
        { s with disk := Function.update s.disk fileId (s.disk fileId).lseekEnd }

/-- The calls of one session, and `count_pages` of any other. -/
def pageIo : Machine PageIo SystemCall where
  init s := s.phase = .idle ∧ s.history = []
  step := PageIo.Step

/-! ## What is meant to be transferred -/

/-- A flush writes the range of its page and the file keeps its size if it has the page; a
read delivers the range of its page. -/
def Transfer.Exact : Transfer → Prop
  | .flushed page before after =>
      (∀ i, after.data i =
        if 4096 * page.pageId.pageNumber.toNat ≤ i ∧
            i < 4096 * page.pageId.pageNumber.toNat + 4096
        then page.bytes.byteAt (i - 4096 * page.pageId.pageNumber.toNat) else before.data i) ∧
      (4096 * (page.pageId.pageNumber.toNat + 1) ≤ before.size → after.size = before.size)
  | .delivered pageId bytes file =>
      ∀ i : Fin 4096, bytes i = file.data (4096 * pageId.pageNumber.toNat + i.val)

theorem write_exact {f : OpenFile} {page : Page}
    (hoffset : f.offset = 4096 * page.pageId.pageNumber.toNat) :
    (Transfer.flushed page f (f.write page.bytes)).Exact := by
  refine ⟨fun i => ?_, fun hsize => ?_⟩
  · simp only [OpenFile.write, hoffset]
  · simp only [OpenFile.write, hoffset]
    omega

theorem read_exact {f : OpenFile} {pageId : PageId} (bytes : PageBytes)
    (hpage : 0 ≤ pageId.pageNumber) (hold : pageId.pageNumber < ((f.size / 4096 : Nat) : Int))
    (hoffset : f.offset = 4096 * pageId.pageNumber.toNat) :
    (Transfer.delivered pageId (f.read bytes) f).Exact := by
  intro i
  have hin : f.offset + i.val < f.size := by omega
  rw [OpenFile.read, if_pos hin, hoffset]

/-! ## The window -/

/-- The offset of the file is the one the session has just set for its transfer. -/
def Phase.Positioned (fileId : FileId) : Phase → Prop
  | .flushing page => page.pageId.fileId = fileId
  | .reading pageId _ fileSize =>
      pageId.fileId = fileId ∧ pageId.pageNumber < ((fileSize / 4096 : Nat) : Int)
  | _ => False

/-- No `count_pages` of a file between the `lseek` and the transfer of a page of it, and no
page whose offset is past `int`. -/
def Orderly (s : PageIo) : SystemCall → Prop
  | .countPages fileId => ¬ s.phase.Positioned fileId
  | .seekToFlush page => OffsetFits page.pageId
  | .seekToEnd pageId _ => OffsetFits pageId
  | _ => True

/-- What the session relies on before its next system call. -/
def Phase.Ready (disk : Disk) : Phase → Prop
  | .idle => True
  | .flushing page =>
      (disk page.pageId.fileId).offset = 4096 * page.pageId.pageNumber.toNat
  | .measuring pageId _ => OffsetFits pageId
  | .seeking pageId _ fileSize => OffsetFits pageId ∧ fileSize = (disk pageId.fileId).size
  | .reading pageId _ fileSize =>
      0 ≤ pageId.pageNumber ∧ fileSize = (disk pageId.fileId).size ∧
        (pageId.pageNumber < ((fileSize / 4096 : Nat) : Int) →
          (disk pageId.fileId).offset = 4096 * pageId.pageNumber.toNat)

structure PageIo.Inv (s : PageIo) : Prop where
  ready : s.phase.Ready s.disk
  exact : ∀ t ∈ s.history, t.Exact

/-- Outside the window `count_pages` disturbs nothing. -/
theorem Phase.Ready.countPages {disk : Disk} {phase : Phase} (h : phase.Ready disk)
    {fileId : FileId} (hout : ¬ phase.Positioned fileId) :
    phase.Ready (Function.update disk fileId (disk fileId).lseekEnd) := by
  have hsize : ∀ other, (Function.update disk fileId (disk fileId).lseekEnd other).size =
      (disk other).size := by
    intro other
    by_cases hfile : other = fileId
    · rw [hfile, Function.update_self, lseekEnd_size]
    · rw [Function.update_of_ne hfile]
  cases phase with
  | idle => trivial
  | flushing page =>
      have hother : page.pageId.fileId ≠ fileId := hout
      simpa only [Phase.Ready, Function.update_of_ne hother] using h
  | measuring pageId bytes => exact h
  | seeking pageId bytes fileSize => exact ⟨h.1, h.2.trans (hsize _).symm⟩
  | reading pageId bytes fileSize =>
      obtain ⟨hpage, hfile, hoffset⟩ := h
      refine ⟨hpage, hfile.trans (hsize _).symm, fun hold => ?_⟩
      have hother : pageId.fileId ≠ fileId := fun heq => hout ⟨heq, hold⟩
      rw [Function.update_of_ne hother]
      exact hoffset hold

theorem PageIo.Inv.step {s t : PageIo} {call : SystemCall} (h : s.Inv) (hcall : Orderly s call)
    (hstep : PageIo.Step s call t) : t.Inv := by
  obtain ⟨hready, hexact⟩ := h
  cases hstep with
  | seekToFlush page hs =>
      refine ⟨?_, hexact⟩
      show (Function.update s.disk _ _ page.pageId.fileId).offset = _
      rw [Function.update_self, lseekSet_page hcall]
  | write hs =>
      rw [hs] at hready
      exact ⟨trivial, List.forall_mem_cons.mpr ⟨write_exact hready, hexact⟩⟩
  | writeThrows hs => exact ⟨trivial, hexact⟩
  | seekToEnd pageId bytes hs => exact ⟨hcall, hexact⟩
  | fstat hs =>
      rw [hs] at hready
      exact ⟨⟨hready, rfl⟩, hexact⟩
  | seekToRead hs =>
      rw [hs] at hready
      obtain ⟨hfit, hsize⟩ := hready
      refine ⟨⟨hfit.1, ?_, fun _ => ?_⟩, hexact⟩
      · simpa only [Function.update_self, lseekSet_page hfit] using hsize
      · simp only [Function.update_self, lseekSet_page hfit]
  | ftruncate hs hnew hlength => exact ⟨trivial, hexact⟩
  | read hs hold =>
      rw [hs] at hready
      obtain ⟨hpage, rfl, hoffset⟩ := hready
      exact ⟨trivial, List.forall_mem_cons.mpr ⟨read_exact _ hpage hold (hoffset hold), hexact⟩⟩
  | transferThrows hs => exact ⟨trivial, hexact⟩
  | countPages fileId => exact ⟨hready.countPages hcall, hexact⟩

/-- In every run in which no `count_pages` falls into the window, every transfer is exact. -/
theorem transfers_exact {s : PageIo} (h : (pageIo.restrict Orderly).Reachable s) :
    ∀ t ∈ s.history, t.Exact := by
  have hinv : s.Inv := by
    refine Machine.Reachable.invariant (fun s hs => ?_) (fun s call t hinv hstep => ?_) h
    · obtain ⟨hidle, hempty⟩ := hs
      exact ⟨by rw [hidle]; trivial, by simp [hempty]⟩
    · exact hinv.step hstep.1 hstep.2
  exact hinv.exact

/-- Page 0 of a file of one page, after `count_pages`. -/
theorem transfers_exact_first : ∃ s : PageIo, s.history.length = 1 ∧ ∀ t ∈ s.history, t.Exact := by
  have hinit : (pageIo.restrict Orderly).init
      ⟨fun _ => ⟨0, 4096, fun _ => 0, fun _ _ => rfl⟩, .idle, []⟩ := ⟨rfl, rfl⟩
  have hcount := Machine.Reachable.step (l := SystemCall.countPages ⟨0⟩) (.init hinit)
    ⟨id, .countPages _⟩
  have hseek := Machine.Reachable.step (l := SystemCall.seekToFlush ⟨⟨⟨0⟩, 0⟩, zeroPage, 0, false, true⟩)
    hcount ⟨⟨by decide, by decide⟩, .seekToFlush _ rfl⟩
  have hwrite := Machine.Reachable.step (l := SystemCall.write true) hseek ⟨trivial, .write rfl⟩
  exact ⟨_, rfl, transfers_exact hwrite⟩

/-! ## The calls without interruption -/

section Uninterrupted

variable (io : Io) (disk : Disk) (history : List Transfer)

/-- `flush` is its two system calls. -/
theorem flush_run (page : Page) :
    ∃ history', pageIo.Run ⟨disk, .idle, history⟩ [.seekToFlush page, .write io.writeOk]
      ⟨(flush io page disk).2, .idle, history'⟩ := by
  have hseek := Machine.Run.single (M := pageIo)
    (PageIo.Step.seekToFlush (s := ⟨disk, .idle, history⟩) page rfl)
  cases hio : io.writeOk with
  | true =>
      have hrun := hseek.snoc (PageIo.Step.write rfl)
      simp only [Function.update_self, Function.update_idem] at hrun
      rw [flush, hio]
      exact ⟨_, hrun⟩
  | false =>
      have hrun := hseek.snoc (PageIo.Step.writeThrows rfl)
      rw [flush, hio]
      exact ⟨_, hrun⟩

/-- `read_page` is its four system calls, and what it leaves in the buffer is what is
delivered. -/
theorem readPage_run (pageId : PageId) (bytes : PageBytes) :
    ∃ ok history', pageIo.Run ⟨disk, .idle, history⟩
        [.seekToEnd pageId bytes, .fstat, .seekToRead, .transfer ok]
        ⟨(readPage io pageId bytes disk).2.2, .idle, history'⟩ ∧
      (io.readOk = true → pageId.pageNumber < (((disk pageId.fileId).size / 4096 : Nat) : Int) →
        ∃ file, history' = .delivered pageId (readPage io pageId bytes disk).2.1 file :: history) := by
  have hseek := (((Machine.Run.single (M := pageIo)
    (PageIo.Step.seekToEnd (s := ⟨disk, .idle, history⟩) pageId bytes rfl)).snoc
      (PageIo.Step.fstat rfl)).snoc (PageIo.Step.seekToRead rfl))
  simp only [Function.update_self, Function.update_idem, lseekEnd_size] at hseek
  unfold readPage
  by_cases hnew : (((disk pageId.fileId).size / 4096 : Nat) : Int) ≤ pageId.pageNumber
  · simp only [lseekEnd_size, if_pos hnew]
    by_cases hlength : io.truncateOk = true ∧ 0 ≤ int32 (4096 * (pageId.pageNumber + 1))
    · have hrun := hseek.snoc (PageIo.Step.ftruncate rfl hnew hlength.2)
      simp only [Function.update_self, Function.update_idem] at hrun
      rw [if_pos hlength]
      exact ⟨true, _, hrun, fun _ hold => absurd hnew (by omega)⟩
    · rw [if_neg hlength]
      exact ⟨false, _, hseek.snoc (PageIo.Step.transferThrows rfl),
        fun _ hold => absurd hnew (by omega)⟩
  · simp only [lseekEnd_size, if_neg hnew]
    cases hio : io.readOk with
    | true =>
        have hrun := hseek.snoc (PageIo.Step.read rfl (by omega))
        simp only [Function.update_self, Function.update_idem] at hrun
        exact ⟨true, _, hrun, fun _ _ => ⟨_, rfl⟩⟩
    | false =>
        exact ⟨false, _, hseek.snoc (PageIo.Step.transferThrows rfl), fun h => by cases h⟩

end Uninterrupted

/-! ## In the window -/

/-- A `count_pages` before the `write` of `flush` moves the page to the end of the file. -/
theorem not_exact_of_counted {f : OpenFile} {page : Page}
    (hsize : 4096 * (page.pageId.pageNumber.toNat + 1) ≤ f.size) :
    ¬ (Transfer.flushed page f.lseekEnd (f.lseekEnd.write page.bytes)).Exact := by
  rintro ⟨_, hgrow⟩
  have hsame : max f.size (f.size + 4096) = f.size := hgrow hsize
  omega

theorem flush_appends : ¬ ∀ s : PageIo, pageIo.Reachable s → ∀ t ∈ s.history, t.Exact := by
  intro hall
  have hrun := ((Machine.Run.single (M := pageIo)
    (PageIo.Step.seekToFlush (s := ⟨fun _ => ⟨0, 4096, fun _ => 0, fun _ _ => rfl⟩, .idle, []⟩)
      ⟨⟨⟨0⟩, 0⟩, zeroPage, 0, false, true⟩ rfl)).snoc (PageIo.Step.countPages ⟨0⟩)).snoc
        (PageIo.Step.write rfl)
  exact not_exact_of_counted (by decide) (hall _ (hrun.reachable ⟨rfl, rfl⟩) _ List.mem_cons_self)

end Iic3413Db.System
