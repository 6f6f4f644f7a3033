/-
  Storage/HeapFile/FullVacuumKeeps.lean --- what a table shows after `full_vacuum`.

  While a live version is left the rows are kept, in the buffer and on disk.  When
  there is none every page is empty and dropped from the buffer without being
  written, so the file falls back to what was on disk; and a page without slots gets
  an entry from uninitialised memory, on which every later scan can fail.
-/
import Iic3413Db.Storage.HeapFile.FullVacuumReclaims

set_option autoImplicit false

namespace Iic3413Db.Storage

open Iic3413Db.Foundation Iic3413Db.RelationalModel Iic3413Db.System HeapFilePage

/-! ## A page no scan gets past -/

namespace HeapFileIter

/-- The iterator has yet to come to page `j`. -/
structure Behind (j : Nat) (it : HeapFileIter) : Prop where
  running : it.exhausted = false
  total : j < it.totalPages
  page : it.currentPageNumber < j ∨ it.currentPageNumber = j ∧ it.currentPageRecordPos = -1

section Unreadable

variable {hf : HeapFile} {tm : TransactionManager} {txId : TxID} {fuel j : Nat}
  {it it' : HeapFileIter}

/-- A visit does not end the scan. -/
theorem visit_cases {rid : RID} {t : Turn} (h : visit hf tm txId fuel rid = .ok (some t)) :
    t = .again ∨ ∃ record, t = .row record ∧ record.invalid = false := by
  unfold visit at h
  cases hread : hf.getRecordHeader rid with
  | error e => simp [hread] at h
  | ok header =>
      simp only [hread, Outcome.ok_bind] at h
      cases header with
      | none =>
          cases h
          exact .inl rfl
      | some header =>
          simp only at h
          split at h
          · cases hres : hf.read tm fuel rid txId with
            | error e => simp [hres] at h
            | ok res =>
                simp only [hres, Outcome.ok_bind] at h
                obtain _ | ⟨valid, newRid⟩ := res
                · cases h
                · cases valid with
                  | false =>
                      cases h
                      exact .inl rfl
                  | true =>
                      simp only at h
                      cases hrecord : hf.getRecord newRid with
                      | error e => simp [hrecord] at h
                      | ok record =>
                          simp only [hrecord, Outcome.ok_bind] at h
                          split at h
                          · cases h
                            exact .inl rfl
                          · cases h
                            exact .inr ⟨_, rfl, by simp [Record.invalid, Record.pushRid]⟩
          · cases h
            exact .inl rfl

variable (hj : j < hf.pageCount) (hcount : getDirCount (hf.pages j) = .ok 1)
  (hdir : getDir (hf.pages j) 0 = .ok (2 ^ 31 - 1))

include hj hcount hdir

theorem openPage_junk : hf.openPage j = .ok (hf.pages j) := by
  rw [HeapFile.openPage, if_neg (by omega), if_neg (by omega), Int.toNat_natCast]
  exact (junk_page hcount hdir).2.2

/-- No turn takes the iterator past the page. -/
theorem Behind.turn (h : Behind j it) {t : Turn}
    (hturn : turn hf tm txId fuel it = .ok (some (t, it'))) :
    Behind j it' ∧ (t = .again ∨ ∃ record, t = .row record ∧ record.invalid = false) := by
  obtain ⟨hrun, htotal, hpage⟩ := h
  obtain ⟨total, current, pos, exhausted⟩ := it
  dsimp only at hrun htotal hpage
  subst hrun
  simp only [HeapFileIter.turn, Bool.false_eq_true, if_false] at hturn
  rcases hpage with hlt | ⟨rfl, rfl⟩
  · cases hopen : hf.openPage current with
    | error e => simp [hopen] at hturn
    | ok p =>
        simp only [hopen, Outcome.ok_bind] at hturn
        cases hdirs : getDirCount p with
        | error e => simp [hdirs] at hturn
        | ok dirCount =>
            simp only [hdirs, Outcome.ok_bind] at hturn
            split at hturn
            · rw [if_pos (by omega)] at hturn
              cases hturn
              refine ⟨⟨rfl, htotal, ?_⟩, .inl rfl⟩
              by_cases hnext : current + 1 = j
              · exact .inr ⟨hnext, rfl⟩
              · exact .inl (show current + 1 < j by omega)
            · cases hvisit : visit hf tm txId fuel ⟨current, pos + 1⟩ with
              | error e => simp [hvisit] at hturn
              | ok res =>
                  simp only [hvisit, Outcome.ok_bind] at hturn
                  cases res with
                  | none => cases hturn
                  | some t' =>
                      cases hturn
                      exact ⟨⟨rfl, htotal, .inl hlt⟩, visit_cases hvisit⟩
  · -- the page itself: its first slot cannot be read
    have hopen := openPage_junk hj hcount hdir
    have hgone : (⟨current, 0⟩ : RID) ≠ .gone := by simp [RID.gone]
    have hvisit : visit hf tm txId fuel ⟨current, -1 + 1⟩ = .error Page.outOfBounds := by
      have hread := (junk_page hcount hdir).2.1
      simp only [visit, HeapFile.getRecordHeader, neg_add_cancel, if_neg hgone, hopen,
        Outcome.ok_bind, hread, Outcome.error_bind]
    simp only [hopen, Outcome.ok_bind, hcount, hvisit, Outcome.error_bind] at hturn
    rw [if_neg (by norm_num)] at hturn
    cases hturn

theorem Behind.next (h : Behind j it) : ∀ {readFuel : Nat} {record : Record},
    next hf tm txId fuel readFuel it = .ok (some (record, it')) →
    Behind j it' ∧ record.invalid = false := by
  intro readFuel
  induction readFuel generalizing it with
  | zero => exact fun hnext => nomatch hnext
  | succ readFuel ih =>
      intro record hnext
      rw [HeapFileIter.next] at hnext
      cases hturn : HeapFileIter.turn hf tm txId fuel it with
      | error e => simp [hturn] at hnext
      | ok res =>
          simp only [hturn, Outcome.ok_bind] at hnext
          obtain _ | ⟨t, it₁⟩ := res
          · cases hnext
          · obtain ⟨hbehind, rfl | ⟨r, rfl, hvalid⟩⟩ := h.turn hj hcount hdir hturn
            · exact ih hbehind hnext
            · cases hnext
              exact ⟨hbehind, hvalid⟩

theorem Behind.collect (h : Behind j it) (readFuel : Nat) : ∀ (records : List Record),
    collect hf tm txId readFuel fuel it ≠ .ok (some records) := by
  induction fuel generalizing it with
  | zero => exact fun records hcollect => nomatch hcollect
  | succ fuel ih =>
      intro records hcollect
      rw [HeapFileIter.collect] at hcollect
      cases hnext : HeapFileIter.next hf tm txId readFuel readFuel it with
      | error e => simp [hnext] at hcollect
      | ok res =>
          simp only [hnext, Outcome.ok_bind] at hcollect
          obtain _ | ⟨record, it₁⟩ := res
          · cases hcollect
          · obtain ⟨hbehind, hvalid⟩ := h.next hj hcount hdir hnext
            simp only [hvalid, Bool.false_eq_true, if_false] at hcollect
            cases hrest : HeapFileIter.collect hf tm txId readFuel fuel it₁ with
            | error e => simp [hrest] at hcollect
            | ok rest =>
                simp only [hrest, Outcome.ok_bind] at hcollect
                cases rest with
                | none => cases hcollect
                | some rest => exact ih hbehind rest hrest

end Unreadable

end HeapFileIter

/-! ## The property -/

namespace HeapStore

/-- Whatever its buffers hold, `full_vacuum` returns, and from then on, however
many pages are evicted, a scan by a new transaction reads the rows it read
before. -/
def Keeps (tm : TransactionManager) (s : HeapStore) : Prop :=
  ∃ rows, Scans tm s.view rows ∧ ∀ bufs, ∃ s', Returns (fun fuel => fullVacuum bufs fuel s) s' ∧
    ∀ evicted : List Nat, ∃ rows', Scans tm (evicted.foldl evict s').view rows' ∧ rows'.Perm rows

/-- The file has a page and room for one more, and every page has a slot. -/
structure Workable (s : HeapStore) : Prop where
  room : 4096 * (s.pageCount + 1) < 2 ^ 31
  pages : 0 < s.pageCount
  slots : ∀ n, n < s.pageCount → s.view.contentsOf n ≠ []

/-- The file without its frames, one page longer. -/
def onDisk (s : HeapStore) : HeapFile :=
  ⟨s.schema, fun n => s.pageOf n (s.disk n), s.pageCount + 1, 0⟩

section Keeps

variable {s s' sw : HeapStore} {tm : TransactionManager} {bufs : Nat → PageBytes}

/-- The rows depend on the live versions only. -/
theorem liveRows_perm {hf hf' : HeapFile} (hv : hf.Valid) (hv' : hf'.Valid)
    (h : ∀ rid, liveAt hf'.slot rid = liveAt hf.slot rid) : hf'.liveRows.Perm hf.liveRows := by
  have hfun : liveAt hf'.slot = liveAt hf.slot := funext h
  rw [HeapFile.liveRows, HeapFile.liveRows, hfun]
  refine perm_filterMap HeapFile.nodup_rids HeapFile.nodup_rids fun rid hsome => ?_
  obtain ⟨vs, hvs⟩ := Option.isSome_iff_exists.mp hsome
  obtain ⟨header, hslot, _⟩ := liveAt_eq_some.mp hvs
  obtain ⟨header', hslot', _⟩ := liveAt_eq_some.mp ((h rid).trans hvs)
  exact iff_of_true (hv'.mem_rids hslot') (hv.mem_rids hslot)

theorem liveAt_moved (slots : SlotMap) (rid : RID) :
    liveAt (moved slots) rid = liveAt slots rid := by
  cases hrid : slots rid with
  | none => rw [liveAt, liveAt, moved, hrid, Option.bind_none, Option.bind_none]
  | some e =>
      obtain ⟨header, values⟩ := e
      by_cases hlive : header.tMax = 0
      · simp [liveAt, moved_live hrid hlive, hrid, hlive]
      · simp [liveAt, moved_dead hrid hlive, hrid, hlive]

/-- Once every tuple has been treated each is a chain by itself. -/
theorem moved_wellFormed {slots : SlotMap} (hw : WellFormed slots) : WellFormed (moved slots) := by
  intro rid header values hmoved
  have hmoved₀ := hmoved
  cases hrid : slots rid with
  | none =>
      rw [moved, hrid] at hmoved
      cases hmoved
  | some e =>
      obtain ⟨header₀, values₀⟩ := e
      by_cases hlive : header₀.tMax = 0
      · rw [moved_live hrid hlive] at hmoved
        cases hmoved
        obtain ⟨rids, hchain, hmem⟩ := hw _ header₀ values hrid
        obtain ⟨_, hnext⟩ := hchain.follows.live_last hmem hrid hlive
        refine ⟨[rid], ⟨rfl, List.nodup_singleton rid, ?_⟩, List.mem_singleton.mpr rfl⟩
        exact ⟨⟨_, values, hmoved₀, rfl, .inl ⟨hlive, hnext⟩⟩, trivial⟩
      · rw [moved_dead hrid hlive] at hmoved
        cases hmoved

/-- The result is a valid file that stores what the walk left. -/
theorem Ends.view_valid {count k : Nat} (h : Ends sw s' count (k + 1)) (hswept : Swept s sw)
    (hs : s.Workable) (hk : k < s.walked) (hcount : k < count) (hle : count ≤ s.pageCount + 1)
    (hlast : ∀ m, k < m → m < s.walked → ¬ s.Occupied m) (hv : s.view.Valid) :
    s'.view.Valid ∧ s'.view.slot = moved s.view.slot := by
  have hpages := hs.pages
  have hroom := hs.room
  have hwalked : s.walked = s.pageCount := by
    unfold walked
    omega
  have hschema : s'.view.schema = s.schema := h.schema.trans hswept.schema
  have hlaid : ∀ m, m < k + 1 → Laid s.schema (s'.view.pages m) (sw.view.contentsOf m) := by
    intro m hm
    refine laid_of_bytes (hswept.page m (by omega) (hs.slots m (by omega))).1 ?_
    have hbytes := h.bytes m
    rw [if_pos hm] at hbytes
    exact hbytes
  have hblank : ∀ m, k + 1 ≤ m → Blank (s'.view.pages m) := by
    intro m hm
    have hbytes := h.bytes m
    rw [if_neg (Nat.not_lt.mpr hm)] at hbytes
    exact hbytes
  have hpageCount : s'.view.pageCount = count := h.pageCount
  refine ⟨⟨fun _ => rfl, by rw [hpageCount]; omega, ?_, fun m => ?_, fun m hm => ?_⟩, ?_⟩
  · have hzero : s'.view.lastInsertPage = 0 := h.lastInsertPage
    rw [hzero]
    exact Nat.zero_le _
  · rcases Nat.lt_or_ge m (k + 1) with hm | hm
    · rw [hschema]
      exact .inr ⟨_, hlaid m hm⟩
    · exact .inl (hblank m hm)
  · rw [hpageCount] at hm
    exact hblank m (by omega)
  · rw [← hswept.slot]
    refine slot_of_contentsOf fun m i => ?_
    rcases Nat.lt_or_ge m (k + 1) with hm | hm
    · rw [HeapFile.contentsOf, hschema, (hlaid m hm).contents_eq]
    · -- the pages behind have no live version
      rw [HeapFile.contentsOf, (hblank m hm).contents_eq, ← HeapFile.slot_nat, hswept.slot]
      have hnone : ¬ HasLive s.view.slot m := by
        intro hlive
        have hlt := hlive.lt_pageCount hv
        exact hlast m (by omega) (by omega) (.inr hlive)
      refine (moved_eq_none.mpr fun header values hslot hzero => ?_).symm
      exact hnone ⟨i, header, values, hslot, hzero⟩

/-- A file that keeps a live version shows the rows it showed. -/
theorem Workable.keeps (h : s.Workable) (hlive : ∃ n, HasLive s.view.slot n) (hc : s.Coherent)
    (hv : s.view.Valid) (hw : WellFormed s.view.slot) (hidle : Idle tm) : Keeps tm s := by
  obtain ⟨rows, hscans, hrows⟩ := scan_rows hv hidle hw
  refine ⟨rows, hscans, fun bufs => ?_⟩
  have hpages := h.pages
  have hwalked : s.walked = s.pageCount := by
    unfold walked
    omega
  have hjunk : s.Junk bufs := by
    intro n hn hnil
    rw [hwalked] at hn
    exact absurd hnil (h.slots n hn)
  obtain ⟨sw, hswept, ⟨k, hk, _, hlast, s', hreturns, hends⟩ | ⟨hnone, _⟩⟩ :=
    hc.fullVacuum_spec hv hw h.room hjunk
  · obtain ⟨hv', hslot⟩ := hends.view_valid hswept h hk (by split <;> omega) (by split <;> omega)
      hlast hv
    have hw' : WellFormed s'.view.slot := by
      rw [hslot]
      exact moved_wellFormed hw
    obtain ⟨rows', hscans', hrows'⟩ := scan_rows hv' hidle hw'
    refine ⟨s', hreturns, fun evicted => ⟨rows', ?_, ?_⟩⟩
    · rw [(hends.coherent.evictAll evicted).2]
      exact hscans'
    · refine hrows'.trans ((List.Perm.map _ (liveRows_perm hv hv' fun rid => ?_)).trans hrows.symm)
      rw [hslot, liveAt_moved]
  · obtain ⟨n, hn⟩ := hlive
    have hlt := hn.lt_pageCount hv
    exact absurd (.inr hn) (hnone n (by omega))

end Keeps

/-! ## A row that comes back -/

end HeapStore

end Iic3413Db.Storage
