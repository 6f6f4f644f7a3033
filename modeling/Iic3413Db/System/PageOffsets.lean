/-
  System/PageOffsets.lean --- where `flush` and `read_page` look for a page in its file.

  The products of a page number and `Page::SIZE` are of type `int`.  They are the byte
  offsets of the pages below 2 GiB, and wrap after that.
-/
import Iic3413Db.System.FileManager

set_option autoImplicit false

namespace Iic3413Db.System

open Iic3413Db.Foundation Iic3413Db.Storage

/-! ## Places -/

/-- `flush` writes the page at 4096 times its number. -/
def WritesInPlace (n : Int) : Prop :=
  ∀ (io : Io) (page : Page) (disk : Disk), page.pageId.pageNumber = n → io.writeOk = true →
    (flush io page disk).2 = Function.update disk page.pageId.fileId
      (OpenFile.write { disk page.pageId.fileId with offset := 4096 * n.toNat } page.bytes)

/-- `read_page` of a page the file has delivers the bytes there. -/
def ReadsInPlace (n : Int) : Prop :=
  ∀ (io : Io) (pageId : PageId) (bytes : PageBytes) (disk : Disk), pageId.pageNumber = n →
    io.readOk = true → 4096 * (n.toNat + 1) ≤ (disk pageId.fileId).size →
    (readPage io pageId bytes disk).2.1 = disk.pageOf pageId

/-- `read_page` of a new page makes the file end where the page does. -/
def ExtendsToEnd (n : Int) : Prop :=
  ∀ (io : Io) (pageId : PageId) (bytes : PageBytes) (disk : Disk), pageId.pageNumber = n →
    io.truncateOk = true → (((disk pageId.fileId).size / 4096 : Nat) : Int) ≤ n →
    ((readPage io pageId bytes disk).2.2 pageId.fileId).size = 4096 * (n.toNat + 1)

/-- All three. -/
structure InPlace (n : Int) : Prop where
  writes : WritesInPlace n
  reads : ReadsInPlace n
  grows : ExtendsToEnd n

/-- A flush of page `a` does not change what reading page `b` of the file returns. -/
def Apart (a b : Int) : Prop :=
  ∀ (io io' : Io) (page : Page) (bytes : PageBytes) (disk : Disk), page.pageId.pageNumber = a →
    disk.Paged → io'.truncateOk = true → io'.readOk = true →
    (readPage io' ⟨page.pageId.fileId, b⟩ bytes (flush io page disk).2).1 =
        (readPage io' ⟨page.pageId.fileId, b⟩ bytes disk).1 ∧
      (readPage io' ⟨page.pageId.fileId, b⟩ bytes (flush io page disk).2).2.1 =
        (readPage io' ⟨page.pageId.fileId, b⟩ bytes disk).2.1

/-- The page ends below 2 GiB. -/
def EndsInInt (n : Int) : Prop := 4096 * (n + 1) < 2 ^ 31

/-! ## Below 2 GiB -/

section Below

variable {n a b : Int}

theorem writesInPlace (hn : 0 ≤ n) (h : EndsInInt n) : WritesInPlace n := by
  intro io page disk hpage hio
  have hfit : OffsetFits page.pageId := by
    unfold EndsInInt at h
    exact ⟨by omega, by omega⟩
  rw [flush, lseekSet_page hfit, if_pos hio, hpage]

theorem readsInPlace (hn : 0 ≤ n) (h : EndsInInt n) : ReadsInPlace n := by
  intro io pageId bytes disk hpage hio hsize
  have hfit : OffsetFits pageId := by
    unfold EndsInInt at h
    exact ⟨by omega, by omega⟩
  have hold : ¬ (((disk pageId.fileId).lseekEnd.size / 4096 : Nat) : Int) ≤ pageId.pageNumber := by
    rw [lseekEnd_size]
    omega
  rw [readPage, if_neg hold, if_pos hio, lseekSet_page hfit]
  funext i
  have hend := lseekEnd_size (disk pageId.fileId)
  simp only [OpenFile.read, Disk.pageOf]
  rw [if_pos (by omega)]
  rfl

theorem extendsToEnd (hn : 0 ≤ n) (h : EndsInInt n) : ExtendsToEnd n := by
  intro io pageId bytes disk hpage hio hsize
  unfold EndsInInt at h
  have hfit : OffsetFits pageId := ⟨by omega, by omega⟩
  have hlength : int32 (4096 * (pageId.pageNumber + 1)) = 4096 * (pageId.pageNumber + 1) :=
    int32_of_range (by omega) (by omega)
  have hnew : (((disk pageId.fileId).lseekEnd.size / 4096 : Nat) : Int) ≤ pageId.pageNumber := by
    rw [lseekEnd_size]
    omega
  rw [readPage, if_pos hnew, hlength, if_pos ⟨hio, by omega⟩, lseekSet_page hfit]
  simp only [Function.update_self, OpenFile.ftruncate]
  omega

/-- The contents of the pages are what a flush leaves of them. -/
theorem flush_pageOf (io : Io) {page : Page} (disk : Disk) (hpaged : disk.Paged)
    (hfit : OffsetFits page.pageId) :
    (flush io page disk).2.Paged ∧ ∀ other, 0 ≤ other.pageNumber → other ≠ page.pageId →
      (flush io page disk).2.pageOf other = disk.pageOf other := by
  cases hio : io.writeOk with
  | true =>
      obtain ⟨disk', hflush, _, hothers, _, hkeeps⟩ := flush_spec io disk hio hfit
      rw [hflush]
      exact ⟨hkeeps hpaged, hothers⟩
  | false =>
      have hseek : (flush io page disk).2 = Function.update disk page.pageId.fileId
          { disk page.pageId.fileId with offset := 4096 * page.pageId.pageNumber.toNat } := by
        rw [flush, lseekSet_page hfit, hio]
        rfl
      rw [hseek]
      refine ⟨fun fileId => ?_, fun other _ _ => ?_⟩
      · by_cases hfile : fileId = page.pageId.fileId
        · subst hfile
          simpa using hpaged page.pageId.fileId
        · simpa [Function.update_of_ne hfile] using hpaged fileId
      · funext i
        by_cases hfile : other.fileId = page.pageId.fileId
        · simp only [Disk.pageOf, hfile, Function.update_self]
        · simp only [Disk.pageOf, Function.update_of_ne hfile]

theorem apart_of_ends (ha : 0 ≤ a) (hb : 0 ≤ b) (hne : a ≠ b) (hends : EndsInInt a)
    (hends' : EndsInInt b) : Apart a b := by
  intro io io' page bytes disk hpage hpaged htruncate hread
  unfold EndsInInt at hends hends'
  have hfit : OffsetFits page.pageId := ⟨by omega, by omega⟩
  have hfit' : OffsetFits ⟨page.pageId.fileId, b⟩ := ⟨hb, by show b * 4096 < 2 ^ 31; omega⟩
  have hend : ∀ disk : Disk, EndFits disk ⟨page.pageId.fileId, b⟩ := fun _ =>
    .inl (by show (b + 1) * 4096 < 2 ^ 31; omega)
  have hother : (⟨page.pageId.fileId, b⟩ : PageId) ≠ page.pageId := by
    intro heq
    have hnumber := congrArg PageId.pageNumber heq
    exact hne (hpage.symm.trans hnumber.symm)
  obtain ⟨hpaged', hothers⟩ := flush_pageOf io disk hpaged hfit
  obtain ⟨d, hd, _⟩ := readPage_spec io' bytes htruncate hread hfit' (hend _) hpaged
  obtain ⟨d', hd', _⟩ := readPage_spec io' bytes htruncate hread hfit' (hend _) hpaged'
  rw [hd, hd', hothers _ hb hother]
  exact ⟨rfl, rfl⟩

end Below

/-! ## The length wraps after that -/

theorem not_extendsToEnd {n : Int} (hn : 0 ≤ n) (h : ¬ EndsInInt n) : ¬ ExtendsToEnd n := by
  intro hextends
  unfold EndsInInt at h
  have hsize := hextends Io.ok ⟨⟨0⟩, n⟩ zeroPage (fun _ => OpenFile.empty) rfl rfl
    (by show ((0 / 4096 : Nat) : Int) ≤ n; omega)
  have hnew : (((OpenFile.empty).lseekEnd.size / 4096 : Nat) : Int) ≤ n := by
    show ((0 / 4096 : Nat) : Int) ≤ n
    omega
  have hseek : ((OpenFile.empty).lseekEnd.lseekSet (int32 (n * 4096))).size = 0 := by
    unfold OpenFile.lseekSet
    split <;> rfl
  have hlt : int32 (4096 * (n + 1)) < 2 ^ 31 := by
    have hbound := Int.bmod_lt (x := 4096 * (n + 1)) (m := 2 ^ 32) (by decide)
    unfold int32
    omega
  rw [readPage, if_pos hnew] at hsize
  dsimp only at hsize
  split at hsize
  · simp only [Function.update_self, OpenFile.ftruncate] at hsize
    omega
  · simp only [Function.update_self, hseek] at hsize
    omega

/-- When two pages of a file are in their places and apart. -/
theorem inPlace_iff {a b : Int} (ha : 0 ≤ a ∧ a < 2 ^ 31) (hb : 0 ≤ b ∧ b < 2 ^ 31) (hne : a ≠ b) :
    InPlace a ∧ InPlace b ∧ Apart a b ↔ EndsInInt a ∧ EndsInInt b := by
  constructor
  · rintro ⟨hplace, hplace', _⟩
    refine ⟨?_, ?_⟩
    · by_contra h
      exact not_extendsToEnd ha.1 h hplace.grows
    · by_contra h
      exact not_extendsToEnd hb.1 h hplace'.grows
  · rintro ⟨h, h'⟩
    exact ⟨⟨writesInPlace ha.1 h, readsInPlace ha.1 h, extendsToEnd ha.1 h⟩,
      ⟨writesInPlace hb.1 h', readsInPlace hb.1 h', extendsToEnd hb.1 h'⟩,
      apart_of_ends ha.1 hb.1 hne h h'⟩

theorem inPlace_iff_first : InPlace 0 ∧ InPlace 1 ∧ Apart 0 1 :=
  (inPlace_iff ⟨by decide, by decide⟩ ⟨by decide, by decide⟩ (by decide)).mpr
    ⟨by unfold EndsInInt; decide, by unfold EndsInInt; decide⟩

/-- The page at 4 GiB is written over the first one. -/
theorem first_overwritten : ¬ Apart (2 ^ 20) 0 := by
  intro hapart
  have hpaged : Disk.Paged fun _ => ⟨0, 4096, fun _ => 0, fun _ _ => rfl⟩ := fun _ => dvd_rfl
  have hbytes := congrFun (hapart Io.ok Io.ok ⟨⟨⟨0⟩, 2 ^ 20⟩, fun _ => 1, 0, false, true⟩ zeroPage _
    rfl hpaged rfl rfl).2 0
  exact absurd hbytes (by decide)

end Iic3413Db.System
