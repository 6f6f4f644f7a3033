/-
  Storage/HeapFile/VacuumRuns.lean --- when `vacuum` keeps a page's contents.

  On a page that has a slot it does, and the free space it leaves is exactly what
  the live tuples do not take.  On a page with none the trailing
  `last_useful_dir_count++` still counts one, so the directory grows by an entry
  the loop never wrote.
-/
import Iic3413Db.Storage.HeapFile.PageRuns

set_option autoImplicit false

namespace Iic3413Db.Storage

open Iic3413Db.Foundation Iic3413Db.RelationalModel HeapFilePage

/-- The bytes of the live tuples. -/
def Contents.liveSize (cs : Contents) : Nat :=
  (cs.map fun slot => (slot.map fun entry => 32 + valuesSize entry.2).getD 0).sum

/-- The page `p'` is the page with contents `cs`, compacted: live slots keep their
number, record and header; dead ones read as dead or are beyond the directory;
and the free space is all that is left. -/
def Vacuums (schema : Schema) (cs : Contents) (p' : Page) : Prop :=
  ∃ cs' : Contents, PageState.Reads schema ⟨p', cs'⟩ ∧ cs'.length ≤ cs.length ∧
    (∀ (i : Nat) (entry : RecordHeader × List Value), cs[i]? = some (some entry) →
      cs'[i]? = some (some entry)) ∧
    (∀ i : Nat, cs[i]? = some none → cs'[i]? = some none ∨ cs'.length ≤ i) ∧
    getFreeSpace p' = .ok (4096 - 8 - 4 * cs'.length - cs'.liveSize)

section Contents

/-- The slots after the last live one take no bytes. -/
theorem liveSize_take_lastLive (cs : Contents) :
    Contents.liveSize (cs.take (lastLive cs + 1)) = cs.liveSize := by
  have hsplit : cs.liveSize = Contents.liveSize (cs.take (lastLive cs + 1)) +
      Contents.liveSize (cs.drop (lastLive cs + 1)) := by
    simp only [Contents.liveSize, ← List.sum_append, ← List.map_append, List.take_append_drop]
  have hdrop : Contents.liveSize (cs.drop (lastLive cs + 1)) = 0 := by
    refine List.sum_eq_zero ?_
    intro n hn
    obtain ⟨slot, hslot, rfl⟩ := List.mem_map.mp hn
    obtain ⟨i, hi⟩ := List.mem_iff_getElem?.mp hslot
    rw [List.getElem?_drop] at hi
    cases slot with
    | none => rfl
    | some entry =>
        have hle := le_lastLive hi
        omega
  rw [hsplit, hdrop, add_zero]

theorem liveSize_contents {schema : Schema} (sp : SlottedPage schema) :
    Contents.liveSize sp.contents = totalSize sp.slots := by
  simp only [Contents.liveSize, SlottedPage.contents, totalSize, List.map_map]
  congr 1
  apply List.map_congr_left
  intro slot _
  cases slot <;> rfl

end Contents

section Vacuum

variable {schema : Schema}

/-- On a page that has a slot. -/
theorem vacuum_vacuums {sp : SlottedPage schema} {p : Page} (hr : Represents sp p)
    (hn : -2 ^ 31 ≤ p.pageId.pageNumber ∧ p.pageId.pageNumber < 2 ^ 31) (hne : sp.slots ≠ [])
    (buf : PageBytes) : ∃ p', vacuum schema p buf = .ok p' ∧ Vacuums schema sp.contents p' := by
  obtain ⟨p', hvac, hpage, hrep⟩ := vacuum_spec hr hne buf
  have hlast : lastLive sp.contents = lastLive sp.slots := lastLive_map sp.slots _
  have hlt := lastLive_lt hne
  have hcontents := contents_vacuumed sp
  have hvalid : PageState.Valid schema ⟨p', sp.vacuumed.contents⟩ :=
    ⟨hpage ▸ hn, sp.vacuumed, hrep, rfl⟩
  have hlen : sp.vacuumed.contents.length = lastLive sp.slots + 1 := by
    rw [hcontents, hlast, List.length_take, sp.contents_length]
    omega
  refine ⟨p', hvac, sp.vacuumed.contents, hvalid.reads, ?_, ?_, ?_, ?_⟩
  · rw [hlen, sp.contents_length]
    omega
  · intro i entry hi
    have hle := le_lastLive hi
    rw [hcontents, List.getElem?_take, if_pos (by omega)]
    exact hi
  · intro i hi
    rcases Nat.lt_or_ge i (lastLive sp.slots + 1) with h | h
    · left
      rw [hcontents, hlast, List.getElem?_take, if_pos h]
      exact hi
    · right
      rw [hlen]
      exact h
  · have htotal := sp.floor_add_total_le
    have hfloor : sp.floor = 8 + 4 * sp.slots.length + sp.freeSpace := rfl
    have hlive : Contents.liveSize sp.vacuumed.contents = totalSize sp.slots := by
      rw [hcontents, liveSize_take_lastLive, liveSize_contents]
    have hfree : sp.vacuumed.freeSpace =
        4088 - 4 * sp.vacuumed.slots.length - totalSize sp.slots := rfl
    rw [getFreeSpace_eq hrep, hlive, hfree, ← sp.vacuumed.contents_length, hlen]
    refine congrArg Except.ok ?_
    omega

/-- On a page that has none, the directory grows to one entry. -/
theorem vacuum_no_slot {sp : SlottedPage schema} {p : Page} (hr : Represents sp p)
    (hnil : sp.slots = []) (buf : PageBytes) :
    ∃ p', vacuum schema p buf = .ok p' ∧ getDirCount p' = .ok 1 := by
  obtain ⟨s, _, hvac⟩ := vacuum_eq hr buf
  refine ⟨_, hvac, ?_⟩
  rw [hnil]
  refine readInt32_of_holds (a := 0) rfl ?_ (by omega) (by omega)
  exact (Block.holds_splice_self (by simp)).splice_of_disjoint (by simp)

/-- After any run `vacuum` returns, and it keeps and compacts the page if and
only if the page has a slot. -/
theorem vacuum_iff {s₀ s : PageState} {ops : List PageOp} (h₀ : s₀.Fresh)
    (hrun : (pageMachine schema).Run s₀ ops s) (buf : PageBytes) :
    ∃ p', vacuum schema s.page buf = .ok p' ∧
      (Vacuums schema s.contents p' ↔ getDirCount s.page ≠ .ok 0) := by
  obtain ⟨hn, sp, hr, hcontents⟩ := run_valid h₀ hrun
  have hcount := getDirCount_eq hr
  rcases List.eq_nil_or_concat' sp.slots with hnil | ⟨init, last, hsnoc⟩
  · obtain ⟨p', hvac, hone⟩ := vacuum_no_slot hr hnil buf
    refine ⟨p', hvac, ?_⟩
    rw [hcount, hnil]
    refine iff_of_false ?_ (fun h => h rfl)
    rintro ⟨cs', hreads, hlen, _⟩
    have hc' := hreads.count.symm.trans hone
    have hlen' : cs'.length = 1 := by exact_mod_cast Except.ok.inj hc'
    rw [hlen', ← hcontents, sp.contents_length, hnil] at hlen
    exact absurd hlen (by decide)
  · have hne : sp.slots ≠ [] := by simp [hsnoc]
    obtain ⟨p', hvac, hvacuums⟩ := vacuum_vacuums hr hn hne buf
    refine ⟨p', hvac, ?_⟩
    rw [← hcontents]
    refine iff_of_true hvacuums ?_
    rw [hcount]
    intro h
    have hlen : sp.slots.length = 0 := by exact_mod_cast Except.ok.inj h
    exact hne (List.length_eq_zero_iff.mp hlen)

end Vacuum

/-- `vacuum_iff` after a run of one insert. -/
theorem vacuum_iff_insert : ∃ s p',
    (pageMachine oneColumn).Run ⟨openedPage, []⟩ [.insert ⟨[.int 7]⟩ 1 none] s ∧
      vacuum oneColumn s.page (fun _ => 255) = .ok p' ∧
      (Vacuums oneColumn s.contents p' ↔ getDirCount s.page ≠ .ok 0) := by
  have hlegal := insert_legal 7 (by norm_num [Value.Fits]) []
  have hsound : PageOp.Sound [] (.insert ⟨[.int 7]⟩ 1 none) := by
    norm_num [PageOp.Sound, RoomFits, insertSize, valueSize]
  obtain ⟨out, page, hexec, _⟩ :=
    exec_spec (s := ⟨openedPage, []⟩) (valid_fresh opened_fresh) hlegal hsound
  have hrun := Machine.Run.single (M := pageMachine oneColumn) (s := ⟨openedPage, []⟩)
    (t := ⟨page, _⟩) ⟨hlegal, hsound, out, hexec, rfl⟩
  obtain ⟨p', hvac, hiff⟩ := vacuum_iff opened_fresh hrun (fun _ => 255)
  exact ⟨_, p', hrun, hvac, hiff⟩

/-- Vacuuming a page just opened, over a buffer of `0xFF` bytes: the directory
count goes from 0 to 1. -/
theorem vacuum_opened_grows : PageState.Fresh ⟨openedPage, []⟩ ∧
    getDirCount openedPage = .ok 0 ∧
      ∃ p', vacuum oneColumn openedPage (fun _ => 255) = .ok p' ∧ getDirCount p' = .ok 1 := by
  obtain ⟨_, sp, hr, hcontents⟩ : PageState.Valid oneColumn ⟨openedPage, []⟩ :=
    valid_fresh opened_fresh
  have hnil : sp.slots = [] := by
    rw [← List.length_eq_zero_iff, ← sp.contents_length, hcontents]
    rfl
  refine ⟨opened_fresh, ?_, vacuum_no_slot hr hnil _⟩
  rw [getDirCount_eq hr, hnil]
  rfl

end Iic3413Db.Storage
