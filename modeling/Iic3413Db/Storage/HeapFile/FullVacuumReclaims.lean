/-
  Storage/HeapFile/FullVacuumReclaims.lean --- what `full_vacuum` gives back.

  Two things go wrong on files that need nothing unusual.  The page created past
  the end is dropped from the buffer but stays in the file when the last page is
  occupied.  And a version that lies on an earlier page than the first one of its
  tuple is deleted after that page was compacted.
-/
import Iic3413Db.Storage.HeapFile.FullVacuumSpec

set_option autoImplicit false

namespace Iic3413Db.Storage

open Iic3413Db.Foundation Iic3413Db.RelationalModel HeapFilePage

/-! ## Sizes -/

/-- The bytes a slot's tuple takes. -/
def entrySize (slot : Option (RecordHeader × List Value)) : Nat :=
  (slot.map fun entry => 32 + valuesSize entry.2).getD 0

/-- Comparing the tuples of two pages slot by slot. -/
theorem liveSize_le {cs d : Contents} (hlen : cs.length = d.length)
    (hle : ∀ i : Nat, entrySize (cs[i]?.join) ≤ entrySize (d[i]?.join)) :
    cs.liveSize ≤ d.liveSize ∧
      (cs.liveSize = d.liveSize → ∀ i : Nat, entrySize (cs[i]?.join) = entrySize (d[i]?.join)) := by
  induction cs generalizing d with
  | nil =>
      obtain rfl := List.length_eq_zero_iff.mp hlen.symm
      exact ⟨le_rfl, fun _ _ => rfl⟩
  | cons a cs ih =>
      cases d with
      | nil => cases hlen
      | cons b d =>
          have hhead : entrySize a ≤ entrySize b := hle 0
          obtain ⟨hrest, heq⟩ := ih (Nat.succ.inj hlen) fun i => hle (i + 1)
          have hc : Contents.liveSize (a :: cs) = entrySize a + Contents.liveSize cs := rfl
          have hd : Contents.liveSize (b :: d) = entrySize b + Contents.liveSize d := rfl
          refine ⟨by omega, fun hsum i => ?_⟩
          cases i with
          | zero =>
              show entrySize a = entrySize b
              omega
          | succ i => exact heq (by omega) i

namespace HeapStore

/-! ## The property -/

/-- Nothing is left to reclaim on the page: each slot is free or a tuple of one
version, and the free space is what the tuples do not take. -/
def PageReclaimed (schema : Schema) (n : Nat) (p : Page) : Prop :=
  ∃ count : Nat, getDirCount p = .ok count ∧
    getFreeSpace p = .ok (4096 - 8 - 4 * count - (contents schema p).liveSize) ∧
    ∀ i : Nat, i < count → getRecordHeader p i = .ok none ∨
      ∃ header, getRecordHeader p i = .ok (some header) ∧ header.tMax = 0 ∧
        header.next = ⟨n, i⟩ ∧ header.first = ⟨n, i⟩

/-- `s'` is `s` with everything reclaimed. -/
structure Reclaimed (s s' : HeapStore) : Prop where
  page : ∀ n : Nat, n < s'.pageCount →
    ∃ p, s'.view.openPage n = .ok p ∧ PageReclaimed s'.schema n p
  pages : s'.pageCount ≤ s.pageCount
  last : ∀ n : Nat, s'.pageCount = n + 1 →
    ∃ p, s'.view.openPage n = .ok p ∧ isPageEmpty p = .ok false

/-- There is room for one more page, every page has a slot, some page has a live
version but the last has none, and a version that ended on a page before the first
one of its tuple lies behind all live ones. -/
structure Reclaimable (s : HeapStore) : Prop where
  room : 4096 * (s.pageCount + 1) < 2 ^ 31
  slots : ∀ n, n < s.pageCount → s.view.contentsOf n ≠ []
  live : ∃ n, HasLive s.view.slot n
  last : ¬ HasLive s.view.slot (s.pageCount - 1)
  forward : ∀ (m i : Nat) (header : RecordHeader) (values : List Value),
    s.view.slot ⟨m, i⟩ = some (header, values) → header.tMax ≠ 0 → (m : Int) < header.first.pageNum →
    ∀ n, HasLive s.view.slot n → n < m

section Reclaims

variable {s s' sw : HeapStore} {bufs : Nat → PageBytes}

theorem HasLive.lt_pageCount (hv : s.view.Valid) {n : Nat} (h : HasLive s.view.slot n) :
    n < s.pageCount := by
  obtain ⟨i, header, values, hslot, _⟩ := h
  rw [HeapFile.slot_nat] at hslot
  exact hv.lt_pageCount (Option.join_eq_some_iff.mp hslot)

/-- A page of the result that the walk left readable. -/
theorem Ends.openPage {count kept n : Nat} (h : Ends sw s' count kept) (hn : n < kept)
    (hcount : n < s'.pageCount) (hconstruct : ∀ p : Page, p.bytes = sw.bytesOf n →
      construct p = .ok p) :
    s'.view.openPage n = .ok (s'.view.pages n) ∧ (s'.view.pages n).bytes = sw.bytesOf n := by
  have hbytes : (s'.view.pages n).bytes = sw.bytesOf n := by
    have heq := h.bytes n
    rw [if_pos hn] at heq
    exact heq
  have hcount : n < s'.view.pageCount := hcount
  refine ⟨?_, hbytes⟩
  rw [HeapFile.openPage, if_neg (by omega), if_neg (by omega), Int.toNat_natCast,
    hconstruct _ hbytes]

/-- What is stored of a tuple after the walk, and when the walk left its page: the
same, unless it lost a version there later on. -/
theorem entrySize_moved_le (slots : SlotMap) (m i : Nat) :
    entrySize (moved slots ⟨m, i⟩) ≤ entrySize (collapsed slots (Before (m + 1) 0) ⟨m, i⟩) ∧
    (entrySize (moved slots ⟨m, i⟩) = entrySize (collapsed slots (Before (m + 1) 0) ⟨m, i⟩) ↔
      ∀ header values, slots ⟨m, i⟩ = some (header, values) → header.tMax ≠ 0 →
        Before (m + 1) 0 header.first) := by
  cases hslot : slots ⟨m, i⟩ with
  | none => simp [moved, collapsed, hslot]
  | some e =>
      obtain ⟨header, values⟩ := e
      by_cases hbefore : Before (m + 1) 0 header.first
      · rw [collapsed_done hslot hbefore]
        refine ⟨le_rfl, iff_of_true rfl ?_⟩
        rintro header' values' ⟨⟩ _
        exact hbefore
      · rw [collapsed_undone hslot hbefore]
        by_cases hlive : header.tMax = 0
        · rw [moved_live hslot hlive]
          refine ⟨le_rfl, iff_of_true rfl ?_⟩
          rintro header' values' ⟨⟩ hdead
          exact absurd hlive hdead
        · rw [moved_dead hslot hlive]
          refine ⟨Nat.zero_le _, iff_of_false ?_ fun h => hbefore (h header values rfl hlive)⟩
          -- a header alone takes 32 bytes
          have hzero : entrySize none = 0 := rfl
          have hsome : entrySize (some (header, values)) = 32 + valuesSize values := rfl
          rw [hzero, hsome]
          omega

/-- A page the walk compacted is reclaimed unless a tuple that starts on a later
page has an ended version on it. -/
theorem Swept.page_reclaimed_iff (h : Swept s sw) (hw : WellFormed s.view.slot) {m : Nat}
    (hm : m < s.walked) (hne : s.view.contentsOf m ≠ []) {p : Page}
    (hp : p.bytes = (sw.view.pages m).bytes) :
    PageReclaimed s.schema m p ↔
      ∀ (i : Nat) (header : RecordHeader) (values : List Value),
        s.view.slot ⟨m, i⟩ = some (header, values) → header.tMax ≠ 0 →
        Before (m + 1) 0 header.first := by
  obtain ⟨hlaid, cs, _, hlen, hfree, hsame⟩ := h.page m hm hne
  have hlaid' : Laid s.schema p (sw.view.contentsOf m) := laid_of_bytes hlaid hp
  have hfree' : getFreeSpace p = .ok (4096 - 8 - 4 * cs.length - cs.liveSize) :=
    (getFreeSpace_congr hp).trans hfree
  have hjoin : ∀ i : Nat, (sw.view.contentsOf m)[i]?.join = moved s.view.slot ⟨m, i⟩ := by
    intro i
    rw [← HeapFile.slot_nat, h.slot]
  obtain ⟨hle, heq⟩ := liveSize_le hlen.symm fun i => by
    rw [hjoin, hsame]
    exact (entrySize_moved_le s.view.slot m i).1
  constructor
  · rintro ⟨count, hcount, hspace, _⟩ i header values hslot hdead
    have hcount' : (count : Int) = (sw.view.contentsOf m).length :=
      Except.ok.inj (hcount.symm.trans hlaid'.getDirCount_eq)
    rw [hlaid'.contents_eq] at hspace
    have hsizes := Except.ok.inj (hspace.symm.trans hfree')
    have hlive : Contents.liveSize (sw.view.contentsOf m) = cs.liveSize := by omega
    have hentry := heq hlive i
    rw [hjoin, hsame] at hentry
    exact (entrySize_moved_le s.view.slot m i).2.mp hentry header values hslot hdead
  · intro hbefore
    have hlive : Contents.liveSize (sw.view.contentsOf m) = cs.liveSize := by
      refine le_antisymm hle (liveSize_le hlen fun i => ?_).1
      rw [hjoin, hsame, (entrySize_moved_le s.view.slot m i).2.mpr (hbefore i)]
    refine ⟨_, hlaid'.getDirCount_eq, ?_, fun i hi => ?_⟩
    · rw [hlaid'.contents_eq, hlive, ← hlen]
      exact hfree'
    · have hget : (sw.view.contentsOf m)[i]? = some (sw.view.contentsOf m)[i] :=
        List.getElem?_eq_getElem hi
      cases hslot : (sw.view.contentsOf m)[i] with
      | none =>
          rw [hslot] at hget
          exact .inl (hlaid'.header_dead hget)
      | some e =>
          obtain ⟨header, values⟩ := e
          rw [hslot] at hget
          refine .inr ⟨header, (hlaid'.header hget).1, ?_⟩
          have hmoved := hjoin i
          rw [hget, Option.join_some] at hmoved
          cases hstored : s.view.slot ⟨m, i⟩ with
          | none =>
              rw [moved, hstored] at hmoved
              cases hmoved
          | some e =>
              obtain ⟨header₀, values₀⟩ := e
              by_cases hzero : header₀.tMax = 0
              · rw [moved_live hstored hzero] at hmoved
                cases hmoved
                -- a live version points to itself
                obtain ⟨rids, hchain, hmem⟩ := hw _ header₀ values hstored
                exact ⟨hzero, (hchain.follows.live_last hmem hstored hzero).2, rfl⟩
              · rw [moved_dead hstored hzero] at hmoved
                cases hmoved

theorem Reclaimable.walked_eq (h : s.Reclaimable) (hv : s.view.Valid) : s.walked = s.pageCount := by
  obtain ⟨n, hn⟩ := h.live
  have hlt := hn.lt_pageCount hv
  unfold walked
  omega

/-- Under the condition everything is reclaimed, whatever the buffers held. -/
theorem Reclaimable.reclaims (h : s.Reclaimable) (hc : s.Coherent) (hv : s.view.Valid)
    (hw : WellFormed s.view.slot) (bufs : Nat → PageBytes) :
    ∃ s', Returns (fun fuel => fullVacuum bufs fuel s) s' ∧ Reclaimed s s' := by
  have hwalked := h.walked_eq hv
  have hjunk : s.Junk bufs := by
    intro n hn hnil
    rw [hwalked] at hn
    exact absurd hnil (h.slots n hn)
  have hocc : ∀ n, n < s.walked → s.Occupied n → HasLive s.view.slot n := by
    intro n hn hn'
    rw [hwalked] at hn
    exact hn'.resolve_left (h.slots n hn)
  obtain ⟨sw, hswept, ⟨k, hk, hkocc, hlast, s', hreturns, hends⟩ | ⟨hnone, _⟩⟩ :=
    hc.fullVacuum_spec hv hw h.room hjunk
  · have hklive := hocc k hk hkocc
    have hkend : s.pageCount ≠ k + 1 := by
      intro heq
      refine h.last ?_
      rw [heq]
      exact hklive
    have hcount := hends.pageCount
    rw [if_pos hkend] at hcount
    have hschema : s'.schema = s.schema := hends.schema.trans hswept.schema
    have hjudged : ∀ n, n < k + 1 → ∀ p : Page, p.bytes = sw.bytesOf n → construct p = .ok p := by
      intro n hn p hp
      by_cases hn' : s.Occupied n
      · exact ((hswept.judged (by omega)).1 hn' p hp).1
      · exact ((hswept.judged (by omega)).2 hn' p hp).1
    refine ⟨s', hreturns, fun n hn => ?_, by omega, fun n hn => ?_⟩
    · obtain ⟨hopen, hbytes⟩ := hends.openPage (by omega) hn (hjudged n (by omega))
      refine ⟨_, hopen, ?_⟩
      rw [hschema]
      refine (hswept.page_reclaimed_iff hw (by omega) (h.slots n (by omega)) hbytes).mpr ?_
      intro i header values hslot hdead
      by_contra hafter
      unfold Before at hafter
      push_cast at hafter
      have hlt := h.forward n i header values hslot hdead (by omega) k hklive
      omega
    · obtain rfl : n = k := by omega
      obtain ⟨hopen, hbytes⟩ := hends.openPage (Nat.lt_succ_self n) (by omega)
        (hjudged n (Nat.lt_succ_self n))
      exact ⟨_, hopen, ((hswept.judged hk).1 hkocc _ hbytes).2⟩
  · obtain ⟨n, hn⟩ := h.live
    have hlt := hn.lt_pageCount hv
    exact absurd (.inr hn) (hnone n (by omega))

/-- Memory whose directory begins with an entry past the page. -/
def junkBuf : PageBytes := Block.splice (fun _ => 0) 8 (intBytes 4 (2 ^ 31 - 1))

theorem junk_junkBuf (s : HeapStore) : s.Junk fun _ => junkBuf := by
  intro n _ _
  have hholds : junkBuf.Holds 8 (intBytes 4 (2 ^ 31 - 1)) := Block.holds_splice_self (by simp)
  have hslice : junkBuf.slice 8 4 = intBytes 4 (2 ^ 31 - 1) := by
    rw [Block.Holds, intBytes_length] at hholds
    exact hholds
  rw [hslice]
  exact intValue_intBytes_of_range (by norm_num) (by norm_num)

/-- The condition holds when everything is reclaimed out of memory that reads as
an entry past the page. -/
theorem reclaimable_of_reclaimed (hc : s.Coherent) (hv : s.view.Valid)
    (hw : WellFormed s.view.slot)
    (hreturns : Returns (fun fuel => fullVacuum (fun _ => junkBuf) fuel s) s')
    (h : Reclaimed s s') : s.Reclaimable := by
  have hjunk := junk_junkBuf s
  have hroom : 4096 * (s.pageCount + 1) < 2 ^ 31 := by
    by_contra hfull
    exact hc.fullVacuum_full hv hw (Nat.not_lt.mp hfull) hjunk s' hreturns
  have hpages := h.pages
  have hle : s.pageCount ≤ s.walked := le_max_left ..
  obtain ⟨sw, hswept, ⟨k, hk, hkocc, hlast, s'', hreturns', hends⟩ | ⟨_, s'', hreturns', hloses⟩⟩ :=
    hc.fullVacuum_spec hv hw hroom hjunk
  · obtain rfl := hreturns.unique hreturns'
    have hcount := hends.pageCount
    -- otherwise the file has one page more
    have hkend : s.pageCount ≠ k + 1 := by
      intro heq
      rw [if_neg (not_not.mpr heq)] at hcount
      omega
    rw [if_pos hkend] at hcount
    have hwalked : s.walked = s.pageCount := by
      unfold walked
      omega
    have hbefore : ∀ n, n < s.pageCount → s.Occupied n → n ≤ k := by
      intro n hn hocc
      by_contra hgt
      exact hlast n (by omega) (by omega) hocc
    have hschema : s'.schema = s.schema := hends.schema.trans hswept.schema
    have hslots : ∀ n, n < s.pageCount → s.view.contentsOf n ≠ [] := by
      intro n hn hnil
      have hnk := hbefore n hn (.inl hnil)
      obtain ⟨hone, hdir⟩ := hswept.junk n (by omega) hnil
      have hjunkPage : ∀ p : Page, p.bytes = sw.bytesOf n → getDirCount p = .ok 1 ∧
          getRecordHeader p 0 = .error Page.outOfBounds ∧ construct p = .ok p := by
        intro p hp
        have hbytes : p.bytes = (sw.view.pages n).bytes := hp
        have hone' := (readInt32_congr hbytes _).trans hone
        obtain ⟨_, hread, hconstruct⟩ := junk_page hone' ((readInt32_congr hbytes _).trans hdir)
        exact ⟨hone', hread, hconstruct⟩
      obtain ⟨hopen, hbytes⟩ := hends.openPage (by omega) (by omega) fun p hp => (hjunkPage p hp).2.2
      obtain ⟨p, hopen', count, hcount', _, hread⟩ := h.page n (by omega)
      obtain rfl := Except.ok.inj (hopen.symm.trans hopen')
      obtain ⟨hone', herror, _⟩ := hjunkPage _ hbytes
      have hcountOne : (count : Int) = 1 := Except.ok.inj (hcount'.symm.trans hone')
      rcases hread 0 (by omega) with hnone | ⟨header, hsome, _⟩
      · exact nomatch herror.symm.trans hnone
      · exact nomatch herror.symm.trans hsome
    refine ⟨hroom, hslots, ⟨k, hkocc.resolve_left (hslots k (by omega))⟩, fun hlive => ?_, ?_⟩
    · have hnk := hbefore _ (by omega) (.inr hlive)
      omega
    · intro m i header values hslot hdead hafter n hlive
      by_contra hge
      have hnk := hbefore n (hlive.lt_pageCount hv) (.inr hlive)
      have hne := hslots m (by omega)
      have hconstruct : ∀ p : Page, p.bytes = sw.bytesOf m → construct p = .ok p :=
        fun p hp => (laid_of_bytes (hswept.page m (by omega) hne).1 hp).construct_eq
      obtain ⟨hopen, hbytes⟩ := hends.openPage (by omega) (by omega) hconstruct
      obtain ⟨p, hopen', hreclaimed⟩ := h.page m (by omega)
      obtain rfl := Except.ok.inj (hopen.symm.trans hopen')
      rw [hschema] at hreclaimed
      have hstart := (hswept.page_reclaimed_iff hw (by omega) hne hbytes).mp hreclaimed i header
        values hslot hdead
      -- the tuple starts at a position of natural numbers
      obtain ⟨header', values', hfirst, _⟩ := hw.first_stored hslot
      obtain ⟨a, b, heq, _⟩ := HeapFile.exists_nat_of_slot hfirst
      rw [heq] at hstart hafter
      unfold Before at hstart
      dsimp only at hstart hafter
      omega
  · obtain rfl := hreturns.unique hreturns'
    have hcount := hloses.pageCount
    rw [hswept.pageCount] at hcount
    omega

/-- `full_vacuum` returns and reclaims everything, whatever its buffers hold, just
when the file is reclaimable. -/
theorem fullVacuum_reclaims_iff (hc : s.Coherent) (hv : s.view.Valid)
    (hw : WellFormed s.view.slot) :
    (∀ bufs, ∃ s', Returns (fun fuel => fullVacuum bufs fuel s) s' ∧ Reclaimed s s') ↔
      s.Reclaimable := by
  constructor
  · intro h
    obtain ⟨s', hreturns, hreclaimed⟩ := h fun _ => junkBuf
    exact reclaimable_of_reclaimed hc hv hw hreturns hreclaimed
  · exact fun h bufs => h.reclaims hc hv hw bufs

end Reclaims

/-! ## Files of one page -/

/-- A file whose page 0 is `disk` on disk and `frame` in the buffer. -/
def onePage (disk : PageBytes) (frame : Option Page) : HeapStore :=
  ⟨oneColumn, ⟨3⟩, fun n => if n = 0 then frame else none,
    fun n => if n = 0 then disk else fun _ => 0, 1, 0, fun _ => none, 0⟩

section OnePage

variable {disk : PageBytes} {frame : Option Page} {p : Page} {header : RecordHeader}
  {values : List Value}

theorem onePage_coherent (hframe : ∀ q, frame = some q → q.pageId = ⟨⟨3⟩, 0⟩ ∧ q.dirty = true) :
    (onePage disk frame).Coherent := by
  refine ⟨fun n q hq => ?_, fun n hn => if_neg (Nat.ne_of_gt hn)⟩
  by_cases hn : n = 0
  · subst hn
    obtain ⟨hid, hdirty⟩ := hframe q hq
    refine ⟨hid, Nat.zero_lt_one, fun hclean => ?_⟩
    rw [hdirty] at hclean
    cases hclean
  · exact nomatch (if_neg hn).symm.trans hq

/-- The slots of a file that shows a page with one tuple. -/
theorem onePage_view (hlaid : Laid oneColumn p [some (header, values)])
    (hbytes : (onePage disk frame).bytesOf 0 = p.bytes) :
    (onePage disk frame).view.Valid ∧
      (∀ n, (onePage disk frame).view.contentsOf n =
        if n = 0 then [some (header, values)] else []) ∧
      ∀ rid e, (onePage disk frame).view.slot rid = some e ↔ rid = ⟨0, 0⟩ ∧ e = (header, values) := by
  have hzero : Laid oneColumn ((onePage disk frame).view.pages 0) [some (header, values)] :=
    laid_of_bytes hlaid hbytes
  have hblank : ∀ n, n ≠ 0 → Blank ((onePage disk frame).view.pages n) := by
    intro n hn
    show (onePage disk frame).bytesOf n = fun _ => 0
    simp [HeapStore.bytesOf, onePage, hn]
  have hcontents : ∀ n, (onePage disk frame).view.contentsOf n =
      if n = 0 then [some (header, values)] else [] := by
    intro n
    split
    · rename_i hn
      rw [hn]
      exact hzero.contents_eq
    · rename_i hn
      exact (hblank n hn).contents_eq
  refine ⟨⟨fun _ => rfl, ?_, Nat.zero_le _, fun n => ?_, fun n hn => ?_⟩, hcontents,
    fun rid e => ⟨fun hslot => ?_, ?_⟩⟩
  · show 4096 * 1 < 2 ^ 31
    norm_num
  · by_cases hn : n = 0
    · rw [hn]
      exact .inr ⟨_, hzero⟩
    · exact .inl (hblank n hn)
  · have hn : 1 ≤ n := hn
    exact hblank n (by omega)
  · obtain ⟨n, i, rfl, hi⟩ := HeapFile.exists_nat_of_slot hslot
    rw [hcontents] at hi
    split at hi
    · rename_i hn
      subst hn
      obtain ⟨hlt, hget⟩ := List.getElem?_eq_some_iff.mp hi
      obtain rfl : i = 0 := Nat.lt_one_iff.mp hlt
      exact ⟨rfl, (Option.some.inj hget).symm⟩
    · cases hi
  · rintro ⟨rfl, rfl⟩
    have hslot := HeapFile.slot_nat (onePage disk frame).view 0 0
    rw [hcontents] at hslot
    exact hslot

/-- A page holding one row. -/
theorem exists_oneRow : ∃ p : Page, p.pageId = ⟨⟨3⟩, 0⟩ ∧
    Laid oneColumn p [some (⟨1, 0, ⟨0, 0⟩, ⟨0, 0⟩⟩, [.int 7])] := by
  have hblank : Blank (Page.mk ⟨⟨3⟩, 0⟩ (fun _ => 0) 1 true false) := rfl
  obtain ⟨q, sp, _, hid, hr, hslots, hfree⟩ := hblank.construct_eq oneColumn
  have hcontents : sp.contents = [] := by rw [SlottedPage.contents, hslots]; rfl
  have hfits : InsertFits oneColumn ⟨[.int 7]⟩ 1 none :=
    insert_legal 7 (by norm_num [Value.Fits]) []
  have hsize : insertSize sp.slots.length sp.contents.firstFree ⟨[.int 7]⟩ = 44 := by
    rw [hcontents, hslots]
    rfl
  have hroom : RoomFits sp.slots.length sp.contents.firstFree ⟨[.int 7]⟩ := by
    rw [RoomFits, hsize]
    norm_num
  rcases tryInsertRecord_spec hr hfits (by rw [hid]; norm_num) hroom with
    ⟨hfull, _⟩ | ⟨p, sp', _, _, hpage, hrep, hplaced⟩
  · rw [hsize, hfree] at hfull
    exact absurd hfull (by norm_num)
  · rw [hcontents, hid] at hplaced
    refine ⟨p, hpage.trans hid, sp', hrep, hplaced, fun hnil => ?_⟩
    have hlen := congrArg List.length hplaced
    rw [sp'.contents_length, hnil] at hlen
    cases hlen

/-- A tuple of one version is a chain. -/
theorem wellFormed_oneVersion {slots : SlotMap} {rid : RID}
    (hslots : ∀ r e, slots r = some e ↔ r = rid ∧ e = (header, values))
    (hfirst : header.first = rid) (hend : header.PointsTo rid none) : WellFormed slots := by
  intro r header' values' hslot
  obtain ⟨rfl, heq⟩ := (hslots r _).mp hslot
  cases heq
  refine ⟨[r], ⟨by rw [hfirst]; rfl, List.nodup_singleton r, ?_⟩, List.mem_singleton.mpr rfl⟩
  exact ⟨⟨header, values, hslot, rfl, hend⟩, trivial⟩

/-- `fullVacuum_reclaims_iff` of a file with one row. -/
theorem fullVacuum_reclaims_iff_oneRow : ∃ s : HeapStore,
    (s.Coherent ∧ s.view.Valid ∧ WellFormed s.view.slot) ∧
      ((∀ bufs, ∃ s', Returns (fun fuel => fullVacuum bufs fuel s) s' ∧ Reclaimed s s') ↔
        s.Reclaimable) := by
  obtain ⟨p, _, hlaid⟩ := exists_oneRow
  have hshown : (onePage p.bytes none).bytesOf 0 = p.bytes := rfl
  obtain ⟨hv, _, hslots⟩ := onePage_view hlaid hshown
  have hc : (onePage p.bytes none).Coherent := onePage_coherent fun q hq => nomatch hq
  have hw := wellFormed_oneVersion hslots rfl (.inl ⟨rfl, rfl⟩)
  exact ⟨_, ⟨hc, hv, hw⟩, fullVacuum_reclaims_iff hc hv hw⟩

/-- A file of one page with one row: the page past the end stays, so the file is
one page longer and its last page is empty. -/
theorem fullVacuum_oneRow_grows : ∃ s : HeapStore,
    (s.Coherent ∧ s.view.Valid ∧ WellFormed s.view.slot ∧ s.pageCount = 1 ∧
      s.view.slot ⟨0, 0⟩ = some (⟨1, 0, ⟨0, 0⟩, ⟨0, 0⟩⟩, [.int 7])) ∧
      ¬ ∀ bufs, ∃ s', Returns (fun fuel => fullVacuum bufs fuel s) s' ∧ Reclaimed s s' := by
  obtain ⟨p, _, hlaid⟩ := exists_oneRow
  have hshown : (onePage p.bytes none).bytesOf 0 = p.bytes := rfl
  obtain ⟨hv, _, hslots⟩ := onePage_view hlaid hshown
  have hc : (onePage p.bytes none).Coherent := onePage_coherent fun q hq => nomatch hq
  have hw := wellFormed_oneVersion hslots rfl (.inl ⟨rfl, rfl⟩)
  have hslot := (hslots ⟨0, 0⟩ _).mpr ⟨rfl, rfl⟩
  refine ⟨_, ⟨hc, hv, hw, rfl, hslot⟩, fun h => ?_⟩
  obtain ⟨s', hreturns, hreclaimed⟩ := h fun _ => junkBuf
  exact (reclaimable_of_reclaimed hc hv hw hreturns hreclaimed).last ⟨0, _, _, hslot, rfl⟩

end OnePage

end HeapStore

end Iic3413Db.Storage
