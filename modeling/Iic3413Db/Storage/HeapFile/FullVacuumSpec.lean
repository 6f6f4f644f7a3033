/-
  Storage/HeapFile/FullVacuumSpec.lean --- what `full_vacuum` comes to.

  `Swept` is the file after the walk over the slots, in terms of the file before
  it; `fullVacuum_spec` adds what the loop over the trailing pages leaves of that.
  A page without slots gets a directory entry from uninitialised memory; the
  statements follow the file where the entry lies past the page, which no read of
  the page survives.
-/
import Iic3413Db.Storage.HeapFile.FullVacuumTrim

set_option autoImplicit false

namespace Iic3413Db.Storage

open Iic3413Db.Foundation Iic3413Db.RelationalModel HeapFilePage

namespace HeapStore

/-- With enough fuel the call returns `s'`. -/
def Returns (run : Nat → Outcome (Option HeapStore)) (s' : HeapStore) : Prop :=
  ∃ needed, ∀ fuel, needed ≤ fuel → run fuel = .ok (some s')

/-- Page `n` has a live version. -/
def HasLive (slots : SlotMap) (n : Nat) : Prop :=
  ∃ (i : Nat) (header : RecordHeader) (values : List Value),
    slots ⟨n, i⟩ = some (header, values) ∧ header.tMax = 0

/-- The pages the walk works on: opening page 0 makes one. -/
def walked (s : HeapStore) : Nat := max s.pageCount 1

/-- The buffers of the pages without slots begin their directory past the page. -/
def Junk (s : HeapStore) (bufs : Nat → PageBytes) : Prop :=
  ∀ n, n < s.walked → s.view.contentsOf n = [] → intValue ((bufs n).slice 8 4) = 2 ^ 31 - 1

/-- The file after the walk over the slots. -/
structure Swept (s sw : HeapStore) : Prop where
  coherent : sw.Coherent
  schema : sw.schema = s.schema
  fileId : sw.fileId = s.fileId
  victims : sw.victims = s.victims
  pageCount : sw.pageCount = s.walked
  slot : sw.view.slot = moved s.view.slot
  page : ∀ m, m < s.walked → s.view.contentsOf m ≠ [] →
    Laid s.schema (sw.view.pages m) (sw.view.contentsOf m) ∧ ∃ cs : Contents, cs ≠ [] ∧
      cs.length = (sw.view.contentsOf m).length ∧
      getFreeSpace (sw.view.pages m) = .ok (4096 - 8 - 4 * cs.length - cs.liveSize) ∧
      ∀ i : Nat, cs[i]?.join = collapsed s.view.slot (Before (m + 1) 0) ⟨m, i⟩
  junk : ∀ m, m < s.walked → s.view.contentsOf m = [] →
    getDirCount (sw.view.pages m) = .ok 1 ∧ getDir (sw.view.pages m) 0 = .ok (2 ^ 31 - 1)
  disk : (∀ i, s.victims i = none) → sw.disk = s.disk

section Spec

variable {s sw : HeapStore} {bufs : Nat → PageBytes}

/-- Opening page 0, which the walk begins with. -/
theorem Coherent.walk_start (hc : s.Coherent) (hv : s.view.Valid) (hw : WellFormed s.view.slot) :
    ∃ p s₀, s.openPage 0 = .ok (p, s₀) ∧ s₀.Sound ∧ Walk s₀ 0 0 s₀ ∧ s₀.schema = s.schema ∧
      s₀.fileId = s.fileId ∧ s₀.victims = s.victims ∧ s₀.pageCount = s.walked ∧
      (∀ m, s₀.view.contentsOf m = s.view.contentsOf m) ∧ s₀.view.slot = s.view.slot ∧
      ((∀ i, s.victims i = none) → s₀.disk = s.disk) := by
  have hbound : 4096 * s.pageCount < 2 ^ 31 := hv.bound
  have hopened : ∃ p s₀, s.openPage (0 : Nat) = .ok (p, s₀) ∧
      Laid s.schema p (s.view.contentsOf 0) ∧ Shows s s₀ 0 p.bytes := by
    have hblank : Blank (s.view.pages 0) → ∃ p s₀, s.openPage (0 : Nat) = .ok (p, s₀) ∧
        Laid s.schema p (s.view.contentsOf 0) ∧ Shows s s₀ 0 p.bytes := by
      intro hblank
      obtain ⟨p, s₀, hopen, _, hlaid, hshows⟩ :=
        hc.openPage_blank (Nat.zero_le _) (by norm_num) hblank
      refine ⟨p, s₀, hopen, ?_, hshows⟩
      rw [HeapFile.contentsOf, hblank.contents_eq]
      exact hlaid
    rcases Nat.eq_zero_or_pos s.pageCount with hzero | hpos
    · exact hblank (hv.beyond 0 hzero.le)
    · rcases hv.page 0 with hblank' | ⟨cs, hlaid⟩
      · exact hblank hblank'
      · obtain ⟨p, s₀, hopen, _, hlaid', hshows, hbytes⟩ := hc.openPage_laid hpos hbound hlaid
        rw [← hbytes] at hshows
        refine ⟨p, s₀, hopen, ?_, hshows⟩
        rw [HeapFile.contentsOf, hlaid.contents_eq]
        exact hlaid'
  obtain ⟨p, s₀, hopen, hlaid, hshows⟩ := hopened
  have hpage : Laid s.schema (s₀.view.pages 0) (s.view.contentsOf 0) := by
    refine laid_of_bytes hlaid ?_
    rw [hshows.page]
    rfl
  have hcontents : ∀ m, s₀.view.contentsOf m = s.view.contentsOf m := by
    intro m
    by_cases hm : m = 0
    · have hschema : s₀.view.schema = s.schema := hshows.schema
      rw [hm, HeapFile.contentsOf, hschema, hpage.contents_eq]
    · exact hshows.contentsOf hm
  have hslot : s₀.view.slot = s.view.slot := slot_of_contentsOf fun m i => by rw [hcontents]
  have hcount : s₀.pageCount = s.walked := hshows.count
  have hahead : ∀ m, Blank (s₀.view.pages m) ∨
      Laid s₀.schema (s₀.view.pages m) (s₀.view.contentsOf m) := by
    intro m
    rw [hcontents, hshows.schema]
    by_cases hm : m = 0
    · rw [hm]
      exact .inr hpage
    · rw [hshows.pages hm]
      refine (hv.page m).imp id ?_
      rintro ⟨cs, hc⟩
      rw [HeapFile.contentsOf, hc.contents_eq]
      exact hc
  have hsound : s₀.Sound := by
    refine ⟨hshows.coherent, ?_, fun m i e hstored => ⟨?_, ?_⟩⟩
    · rw [hcount]
      unfold walked
      omega
    · rw [hslot, HeapFile.slot_nat] at hstored
      have hlt : m < s.pageCount := hv.lt_pageCount (Option.join_eq_some_iff.mp hstored)
      rw [hcount]
      unfold walked
      omega
    · refine (hahead m).resolve_left fun hblank => contents_ne_nil_of_slot hstored ?_
      exact hblank.contents_eq
  have hw₀ : WellFormed s₀.view.slot := by
    rw [hslot]
    exact hw
  have hnone : s₀.view.slot = collapsed s₀.view.slot (Before 0 0) := by
    funext rid
    cases hrid : s₀.view.slot rid with
    | none => rw [collapsed_none hrid]
    | some e =>
        obtain ⟨header, values⟩ := e
        rw [collapsed_undone hrid]
        -- first versions have RIDs of natural numbers
        obtain ⟨header', values', hfirst, _⟩ := hw₀.first_stored hrid
        obtain ⟨m, i, heq, _⟩ := HeapFile.exists_nat_of_slot hfirst
        rw [heq]
        unfold Before
        dsimp only
        omega
  refine ⟨p, s₀, hopen, hsound, ⟨hshows.coherent, rfl, rfl, rfl, rfl, hnone, fun _ _ => rfl,
    fun m _ => hahead m, fun m hm => absurd hm (Nat.not_lt_zero m),
    fun m hm => absurd hm (Nat.not_lt_zero m), fun _ => rfl⟩, hshows.schema, hshows.fileId,
    hshows.victims, hcount, hcontents, hslot, hshows.disk⟩

/-- The walk over the slots of the whole file. -/
theorem Coherent.sweep_all (hc : s.Coherent) (hv : s.view.Valid) (hw : WellFormed s.view.slot)
    (hjunk : s.Junk bufs) :
    ∃ p s₀ sw, s.openPage 0 = .ok (p, s₀) ∧ Swept s sw ∧ ∃ needed, ∀ fuel, needed ≤ fuel →
      sweep s.pageCount bufs fuel s₀ 0 (-1) = .ok (some (s.walked, sw)) := by
  obtain ⟨p, s₀, hopen, hsound, hwalk, hschema, hfile, hvictims, hcount, hcontents, hslot, hdisk⟩ :=
    hc.walk_start hv hw
  have hw₀ : WellFormed s₀.view.slot := by
    rw [hslot]
    exact hw
  have hpos : 0 < s.walked := lt_of_lt_of_le Nat.zero_lt_one (le_max_right ..)
  have htotal : ∀ n, n < s₀.pageCount → (n + 1 < s.pageCount ↔ n + 1 < s₀.pageCount) := by
    intro n hn
    rw [hcount] at hn ⊢
    unfold walked at hn ⊢
    omega
  have hjunk₀ : ∀ n, n < s₀.pageCount → s₀.view.contentsOf n = [] →
      intValue ((bufs n).slice 8 4) = 2 ^ 31 - 1 := by
    intro n hn hnil
    rw [hcount] at hn
    rw [hcontents] at hnil
    exact hjunk n hn hnil
  obtain ⟨sw, hend, needed, hsweep⟩ := Walk.sweep_spec s.pageCount bufs hsound hw₀ htotal hjunk₀
    (s₀.pageCount - 1) 0 s₀ (by omega) hwalk
  rw [hcount] at hend hsweep
  refine ⟨p, s₀, sw, hopen, ⟨hend.coherent, hend.schema.trans hschema, hend.fileId.trans hfile,
    hend.victims.trans hvictims, hend.pageCount.trans hcount, ?_, fun m hm hne => ?_,
    fun m hm hnil => ?_, fun hnone => ?_⟩, needed, hsweep⟩
  · -- every tuple starts before the end of the file
    rw [hend.slot, hslot]
    funext rid
    cases hrid : s.view.slot rid with
    | none => rw [collapsed_none hrid, moved, hrid, Option.bind_none]
    | some e =>
        obtain ⟨header, values⟩ := e
        rw [collapsed_done hrid]
        obtain ⟨header', values', hfirst, _⟩ := hw.first_stored hrid
        obtain ⟨m, i, heq, hi⟩ := HeapFile.exists_nat_of_slot hfirst
        have hlt : m < s.pageCount := hv.lt_pageCount hi
        rw [heq]
        unfold Before walked
        dsimp only
        omega
  · rw [← hcontents] at hne
    obtain ⟨hlaid, cs, hc, hlen, hfree, hsame⟩ := hend.behind m hm hne
    rw [hend.schema, hschema] at hlaid
    rw [hslot] at hsame
    exact ⟨hlaid, cs, hc, hlen, hfree, hsame⟩
  · rw [← hcontents] at hnil
    exact hend.junk m hm hnil
  · exact (hend.disk fun i => hvictims ▸ hnone i).trans (hdisk hnone)

/-- The page keeps a live version, or has an entry that cannot be read. -/
def Occupied (s : HeapStore) (m : Nat) : Prop :=
  s.view.contentsOf m = [] ∨ HasLive s.view.slot m

theorem all_isNone_iff {hf : HeapFile} {m : Nat} :
    (hf.contentsOf m).all Option.isNone = true ↔ ∀ i : Nat, hf.slot ⟨m, i⟩ = none := by
  rw [List.all_eq_true]
  constructor
  · intro h i
    rw [HeapFile.slot_nat]
    cases hi : (hf.contentsOf m)[i]? with
    | none => rfl
    | some e => exact Option.isNone_iff_eq_none.mp (h e (List.mem_of_getElem? hi))
  · intro h e he
    obtain ⟨i, hi⟩ := List.mem_iff_getElem?.mp he
    have hslot := h i
    rw [HeapFile.slot_nat, hi] at hslot
    exact Option.isNone_iff_eq_none.mpr hslot

theorem moved_eq_none {slots : SlotMap} {rid : RID} :
    moved slots rid = none ↔
      ∀ header values, slots rid = some (header, values) → header.tMax ≠ 0 := by
  cases hrid : slots rid with
  | none => simp [moved, hrid]
  | some e =>
      obtain ⟨header, values⟩ := e
      by_cases hlive : header.tMax = 0
      · simp [moved_live hrid hlive, hlive]
      · simp [moved_dead hrid hlive, hlive]

/-- Which pages count as empty after the walk. -/
theorem Swept.judged (h : Swept s sw) {m : Nat} (hm : m < s.walked) :
    (s.Occupied m → Judged sw m false) ∧ (¬ s.Occupied m → Judged sw m true) := by
  by_cases hnil : s.view.contentsOf m = []
  · refine ⟨fun _ p hp => ?_, fun hocc => absurd (.inl hnil) hocc⟩
    obtain ⟨hcount, hdir⟩ := h.junk m hm hnil
    have hbytes : p.bytes = (sw.view.pages m).bytes := hp
    obtain ⟨hempty, _, hconstruct⟩ := junk_page ((readInt32_congr hbytes _).trans hcount)
      ((readInt32_congr hbytes _).trans hdir)
    exact ⟨hconstruct, hempty⟩
  · obtain ⟨hlaid, _⟩ := h.page m hm hnil
    have hjudged : ∀ p : Page, p.bytes = sw.bytesOf m → construct p = .ok p ∧
        isPageEmpty p = .ok ((sw.view.contentsOf m).all Option.isNone) := by
      intro p hp
      have hp' : Laid s.schema p (sw.view.contentsOf m) := laid_of_bytes hlaid hp
      exact ⟨hp'.construct_eq, hp'.isPageEmpty_eq⟩
    have hlive : (sw.view.contentsOf m).all Option.isNone = true ↔ ¬ HasLive s.view.slot m := by
      rw [all_isNone_iff, h.slot]
      constructor
      · rintro hnone ⟨i, header, values, hslot, hzero⟩
        exact moved_eq_none.mp (hnone i) header values hslot hzero
      · intro hno i
        refine moved_eq_none.mpr fun header values hslot hzero => ?_
        exact hno ⟨i, header, values, hslot, hzero⟩
    refine ⟨fun hocc p hp => ?_, fun hocc p hp => ?_⟩
    · have hfalse : (sw.view.contentsOf m).all Option.isNone = false := by
        rw [Bool.eq_false_iff]
        exact fun htrue => hlive.mp htrue (hocc.resolve_left hnil)
      rw [← hfalse]
      exact hjudged p hp
    · have htrue := hlive.mpr fun hhas => hocc (.inr hhas)
      rw [← htrue]
      exact hjudged p hp

/-- `full_vacuum` returns, and leaves the pages up to the last occupied one, or
shows what was on disk. -/
theorem Coherent.fullVacuum_spec (hc : s.Coherent) (hv : s.view.Valid)
    (hw : WellFormed s.view.slot) (hroom : 4096 * (s.pageCount + 1) < 2 ^ 31)
    (hjunk : s.Junk bufs) : ∃ sw, Swept s sw ∧
    ((∃ k, k < s.walked ∧ s.Occupied k ∧ (∀ m, k < m → m < s.walked → ¬ s.Occupied m) ∧
      ∃ s', Returns (fun fuel => fullVacuum bufs fuel s) s' ∧
        Ends sw s' (if s.pageCount ≠ k + 1 then k + 1 else s.walked + 1) (k + 1)) ∨
    (∀ m, m < s.walked → ¬ s.Occupied m) ∧
      ∃ s', Returns (fun fuel => fullVacuum bufs fuel s) s' ∧ Loses sw s') := by
  obtain ⟨p, s₀, sw, hopen, hswept, needed, hsweep⟩ := hc.sweep_all hv hw hjunk
  have hcount := hswept.pageCount
  have hreturns : ∀ {s'}, trim s.pageCount (s.walked + 1) sw = .ok s' →
      Returns (fun fuel => fullVacuum bufs fuel s) { s' with lastInsertPage := 0 } := by
    intro s' htrim
    refine ⟨needed, fun fuel hfuel => ?_⟩
    simp only [fullVacuum, hopen, Outcome.ok_bind, hsweep fuel hfuel, htrim]
  have htotal : s.pageCount = sw.pageCount ∨ s.pageCount = 0 := by
    rw [hcount]
    unfold walked
    omega
  have hroom' : 4096 * (sw.pageCount + 1) < 2 ^ 31 := by
    rw [hcount]
    unfold walked
    omega
  have htrim := hswept.coherent.trim_all hroom' htotal s.Occupied
    fun m hm => hswept.judged (hcount ▸ hm)
  rw [hcount] at htrim
  refine ⟨sw, hswept, ?_⟩
  rcases htrim with ⟨k, hk, hocc, hlast, s', hrun, hends⟩ | ⟨hnone, s', hrun, hloses⟩
  · exact .inl ⟨k, hk, hocc, hlast, _, hreturns hrun, hends⟩
  · exact .inr ⟨hnone, _, hreturns hrun, hloses⟩

/-- A file that cannot take one more page makes it fail. -/
theorem Coherent.fullVacuum_full (hc : s.Coherent) (hv : s.view.Valid)
    (hw : WellFormed s.view.slot) (hfull : 2 ^ 31 ≤ 4096 * (s.pageCount + 1))
    (hjunk : s.Junk bufs) (s' : HeapStore) :
    ¬ Returns (fun fuel => fullVacuum bufs fuel s) s' := by
  rintro ⟨needed', hrun⟩
  obtain ⟨p, s₀, sw, hopen, hswept, needed, hsweep⟩ := hc.sweep_all hv hw hjunk
  have hwalked : s.walked = s.pageCount := by
    unfold walked
    omega
  have hopenFull := hswept.coherent.openPage_full (by rw [hswept.pageCount, hwalked]; exact hfull)
  rw [hswept.pageCount, hwalked] at hopenFull
  have hfuel := hrun (max needed needed') (le_max_right ..)
  simp only [fullVacuum, hopen, Outcome.ok_bind, hsweep _ (le_max_left needed needed'), hwalked,
    trim, hopenFull, Outcome.error_bind] at hfuel
  cases hfuel

/-- The call has one result. -/
theorem Returns.unique {run : Nat → Outcome (Option HeapStore)} {s' s'' : HeapStore}
    (h : Returns run s') (h' : Returns run s'') : s' = s'' := by
  obtain ⟨needed, hrun⟩ := h
  obtain ⟨needed', hrun'⟩ := h'
  have heq := (hrun _ (le_max_left needed needed')).symm.trans
    (hrun' _ (le_max_right needed needed'))
  exact Option.some.inj (Except.ok.inj heq)

end Spec

end HeapStore

end Iic3413Db.Storage
