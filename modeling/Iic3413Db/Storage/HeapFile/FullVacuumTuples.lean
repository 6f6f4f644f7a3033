/-
  Storage/HeapFile/FullVacuumTuples.lean --- what `full_vacuum` does to one tuple.

  `collapse_spec` is the inner loop: the versions of the tuple are deleted, and the
  live one, if there is one, is made the first.  `collapsed slots done` is what is
  stored once the tuples in `done` have been treated so, whichever pages their
  versions lie on.
-/
import Iic3413Db.Storage.HeapFile.FullVacuum
import Iic3413Db.Storage.HeapFile.VersionChains

set_option autoImplicit false

namespace Iic3413Db.Storage

open Iic3413Db.Foundation Iic3413Db.RelationalModel HeapFilePage

namespace HeapFile

/-- One slot of one page has changed. -/
theorem slot_of_contents {hf hf' : HeapFile} {n i : Nat}
    {e : Option (RecordHeader × List Value)} (hi : i < (hf.contentsOf n).length)
    (hn : hf'.contentsOf n = (hf.contentsOf n).set i e)
    (hother : ∀ m, m ≠ n → hf'.contentsOf m = hf.contentsOf m) :
    hf'.slot = Function.update hf.slot ⟨n, i⟩ e := by
  funext rid
  obtain ⟨m, j⟩ := rid
  by_cases hpos : 0 ≤ m ∧ 0 ≤ j
  · obtain ⟨m, rfl⟩ := Int.eq_ofNat_of_zero_le hpos.1
    obtain ⟨j, rfl⟩ := Int.eq_ofNat_of_zero_le hpos.2
    rw [slot_nat]
    by_cases hm : m = n
    · subst hm
      rw [hn]
      by_cases hj : j = i
      · subst hj
        rw [Function.update_self, List.getElem?_set_self hi, Option.join_some]
      · rw [Function.update_of_ne (by simpa using hj), slot_nat, List.getElem?_set_ne (Ne.symm hj)]
    · rw [hother m hm, Function.update_of_ne (by simp [hm]), slot_nat]
  · have hne : (⟨m, j⟩ : RID) ≠ ⟨n, i⟩ := by
      rintro heq
      cases heq
      exact hpos ⟨by omega, by omega⟩
    rw [Function.update_of_ne hne, slot, slot, if_neg hpos, if_neg hpos]

end HeapFile

namespace HeapStore

/-! ## What a page read or written in place changes -/

/-- The pages that store something can be worked on. -/
structure Sound (s : HeapStore) : Prop where
  coherent : s.Coherent
  bound : 4096 * s.pageCount < 2 ^ 31
  page : ∀ (n i : Nat) (e : RecordHeader × List Value), s.view.slot ⟨n, i⟩ = some e →
    n < s.pageCount ∧ Laid s.schema (s.view.pages n) (s.view.contentsOf n)

/-- From `s` to `s'` the slots of some pages have changed in place. -/
structure Edits (s s' : HeapStore) : Prop where
  coherent : s'.Coherent
  schema : s'.schema = s.schema
  fileId : s'.fileId = s.fileId
  victims : s'.victims = s.victims
  pageCount : s'.pageCount = s.pageCount
  lengths : ∀ n, (s'.view.contentsOf n).length = (s.view.contentsOf n).length
  free : ∀ n, getFreeSpace (s'.view.pages n) = getFreeSpace (s.view.pages n)
  laid : ∀ n, Laid s.schema (s.view.pages n) (s.view.contentsOf n) →
    Laid s'.schema (s'.view.pages n) (s'.view.contentsOf n)
  untouched : ∀ n : Nat, (∀ i : Nat, s.view.slot ⟨n, i⟩ = none) →
    s'.view.pages n = s.view.pages n
  disk : (∀ i, s.victims i = none) → s'.disk = s.disk

section Edits

variable {s s' s'' : HeapStore} {n : Nat}

theorem Edits.refl (hc : s.Coherent) : Edits s s :=
  ⟨hc, rfl, rfl, rfl, rfl, fun _ => rfl, fun _ => rfl, fun _ h => h, fun _ _ => rfl, fun _ => rfl⟩

/-- A page that is as it was stores what it did. -/
theorem slot_of_pages (hschema : s'.schema = s.schema)
    (hpage : s'.view.pages n = s.view.pages n) (i : Nat) :
    s'.view.slot ⟨n, i⟩ = s.view.slot ⟨n, i⟩ := by
  have hschema : s'.view.schema = s.view.schema := hschema
  rw [HeapFile.slot_nat, HeapFile.slot_nat, HeapFile.contentsOf, HeapFile.contentsOf, hschema,
    hpage]

theorem Edits.trans (h : Edits s s') (h' : Edits s' s'') : Edits s s'' where
  coherent := h'.coherent
  schema := h'.schema.trans h.schema
  fileId := h'.fileId.trans h.fileId
  victims := h'.victims.trans h.victims
  pageCount := h'.pageCount.trans h.pageCount
  lengths n := (h'.lengths n).trans (h.lengths n)
  free n := (h'.free n).trans (h.free n)
  laid n hlaid := h'.laid n (h.laid n hlaid)
  untouched n hnone := by
    have hpage := h.untouched n hnone
    exact (h'.untouched n fun i => (slot_of_pages h.schema hpage i).trans (hnone i)).trans hpage
  disk hnone := (h'.disk fun i => h.victims ▸ hnone i).trans (h.disk hnone)

theorem Edits.sound (h : Edits s s') (hs : s.Sound) : s'.Sound := by
  refine ⟨h.coherent, by rw [h.pageCount]; exact hs.bound, fun n i e hslot => ?_⟩
  -- a page that stores something stored something before
  by_cases hnone : ∀ i : Nat, s.view.slot ⟨n, i⟩ = none
  · rw [slot_of_pages h.schema (h.untouched n hnone), hnone] at hslot
    cases hslot
  · push Not at hnone
    obtain ⟨j, hj⟩ := hnone
    obtain ⟨e', he'⟩ := Option.ne_none_iff_exists'.mp hj
    obtain ⟨hn, hlaid⟩ := hs.page n j e' he'
    exact ⟨by rw [h.pageCount]; exact hn, h.laid n hlaid⟩

theorem readInt32_congr {p q : Page} (h : q.bytes = p.bytes) (o : Int) :
    q.readInt32 o = p.readInt32 o := by
  unfold Page.readInt32 Page.read
  rw [h]

theorem getFreeSpace_congr {p q : Page} (h : q.bytes = p.bytes) :
    getFreeSpace q = getFreeSpace p := readInt32_congr h 4

/-- Open a page and store back what an operation on one stored slot made of it. -/
theorem Sound.edit (hs : s.Sound) {n i : Nat} {e : RecordHeader × List Value}
    (hslot : s.view.slot ⟨n, i⟩ = some e) :
    (s.view.contentsOf n)[i]? = some (some e) ∧
    ∃ p s₁, s.openPage n = .ok (p, s₁) ∧ p.pageId = ⟨s.fileId, n⟩ ∧
      Laid s.schema p (s.view.contentsOf n) ∧
      ∀ q e', q.pageId = p.pageId → q.dirty = true → getFreeSpace q = getFreeSpace p →
        Laid s.schema q ((s.view.contentsOf n).set i e') →
        Edits s (s₁.put n q) ∧ (s₁.put n q).view.slot = Function.update s.view.slot ⟨n, i⟩ e' := by
  obtain ⟨hn, hlaid⟩ := hs.page n i e hslot
  have hi : (s.view.contentsOf n)[i]? = some (some e) := by
    rw [HeapFile.slot_nat] at hslot
    exact Option.join_eq_some_iff.mp hslot
  obtain ⟨hlt, _⟩ := List.getElem?_eq_some_iff.mp hi
  obtain ⟨p, s₁, hopen, hid, hpage, hshows, hbytes⟩ := hs.coherent.openPage_laid hn hs.bound hlaid
  refine ⟨hi, p, s₁, hopen, hid, hpage, fun q e' hqid hdirty hfree hq => ?_⟩
  have hput := hshows.put (hqid.trans hid) hdirty
  have hcount : (s₁.put n q).pageCount = s.pageCount := by
    rw [hput.count]
    omega
  have hqbytes : ((s₁.put n q).view.pages n).bytes = q.bytes := by
    rw [hput.page]
    rfl
  have hlaid' : Laid s.schema ((s₁.put n q).view.pages n) ((s.view.contentsOf n).set i e') :=
    laid_of_bytes hq hqbytes
  have hcontents : (s₁.put n q).view.contentsOf n = (s.view.contentsOf n).set i e' := by
    have hschema : (s₁.put n q).view.schema = s.schema := hput.schema
    rw [HeapFile.contentsOf, hschema, hlaid'.contents_eq]
  have hother : ∀ m, m ≠ n → (s₁.put n q).view.contentsOf m = s.view.contentsOf m :=
    fun m hm => hput.contentsOf hm
  refine ⟨⟨hput.coherent, hput.schema, hput.fileId, hput.victims, hcount, fun m => ?_, fun m => ?_,
    fun m hm => ?_, fun m hm => ?_, hput.disk⟩,
    HeapFile.slot_of_contents hlt hcontents hother⟩
  · by_cases hmn : m = n
    · rw [hmn, hcontents, List.length_set]
    · rw [hother m hmn]
  · by_cases hmn : m = n
    · rw [hmn, getFreeSpace_congr hqbytes, hfree]
      exact getFreeSpace_congr hbytes
    · rw [hput.pages hmn]
  · rw [hput.schema]
    by_cases hmn : m = n
    · rw [hmn, hcontents]
      exact hlaid'
    · rw [hother m hmn, hput.pages hmn]
      exact hm
  · have hmn : m ≠ n := by
      rintro rfl
      rw [hm i] at hslot
      cases hslot
    exact hput.pages hmn

end Edits

/-! ## One tuple -/

/-- What is left at the place of a version: the live one, made the first. -/
def moved (slots : SlotMap) (rid : RID) : Option (RecordHeader × List Value) :=
  (slots rid).bind fun e => if e.1.tMax = 0 then some ({ e.1 with first := rid }, e.2) else none

theorem update_moved {slots : SlotMap} {rid : RID} {e : Option (RecordHeader × List Value)}
    (he : e = moved slots rid) (r : RID) :
    Function.update slots rid e r = if r ∈ [rid] then moved slots r else slots r := by
  by_cases hr : r = rid
  · rw [hr, Function.update_self, if_pos List.mem_cons_self, he]
  · rw [Function.update_of_ne hr, if_neg (by simpa using hr)]

section Collapse

variable {s : HeapStore} {first rid : RID} {rids : List RID} {header : RecordHeader}

/-- The walk along a tuple's versions, from one whose predecessor has ended. -/
theorem Sound.collapse_spec (hs : s.Sound)
    (hfollows : Follows s.view.slot first (rid :: rids)) (hnodup : (rid :: rids).Nodup)
    (hheader : header.tMax ≠ 0) :
    ∃ s', (∀ fuel, rids.length < fuel → collapse fuel s rid header = .ok (some s')) ∧
      Edits s s' ∧
      ∀ r, s'.view.slot r =
        if r ∈ rid :: rids then moved s.view.slot r else s.view.slot r := by
  have hsucc : ∀ {m fuel : Nat}, m < fuel → ∃ fuel', fuel = fuel' + 1 ∧ m ≤ fuel' :=
    fun {m fuel} h => ⟨fuel - 1, by omega, by omega⟩
  induction rids generalizing s rid header with
  | nil =>
      obtain ⟨⟨header', values, hslot, _, hend⟩, _⟩ := hfollows
      obtain ⟨n, i, rfl, _⟩ := HeapFile.exists_nat_of_slot hslot
      obtain ⟨hi, p, s₁, hopen, hid, hlaid, hedit⟩ := hs.edit hslot
      obtain ⟨hread, _⟩ := hlaid.header hi
      rcases hend with ⟨hlive, hnext⟩ | ⟨hdead, hnext⟩
      · -- the live version becomes the first
        have hrange : -2 ^ 31 ≤ p.pageId.pageNumber ∧ p.pageId.pageNumber < 2 ^ 31 := by
          have hn := (hs.page n i _ hslot).1
          have hbound := hs.bound
          rw [hid]
          dsimp only
          omega
        obtain ⟨q, hq, hqid, hdirty, hfree, hqlaid⟩ := hlaid.resetFirst hi hrange
        rw [hid] at hqlaid
        obtain ⟨hedits, hslots⟩ := hedit q _ hqid hdirty hfree hqlaid
        refine ⟨_, fun fuel hfuel => ?_, hedits, fun r => ?_⟩
        · obtain ⟨fuel, rfl, _⟩ := hsucc hfuel
          simp only [collapse, if_neg hheader, hopen, Outcome.ok_bind, hread, hnext, if_true, hq,
            Int.toNat_natCast]
        · rw [hslots, update_moved]
          rw [moved, hslot, Option.bind_some, if_pos hlive]
      · have hne : (⟨n, i⟩ : RID) ≠ header'.next := by
          rw [hnext]
          simp [RID.deleted]
        obtain ⟨hlt, _⟩ := List.getElem?_eq_some_iff.mp hi
        obtain ⟨q, hq, hqid, hdirty, hfree, hqlaid⟩ := hlaid.deleteRecordPhysically hlt
        obtain ⟨hedits, hslots⟩ := hedit q _ hqid hdirty hfree hqlaid
        refine ⟨_, fun fuel hfuel => ?_, hedits, fun r => ?_⟩
        · obtain ⟨fuel, rfl, _⟩ := hsucc hfuel
          simp only [collapse, if_neg hheader, hopen, Outcome.ok_bind, hread, if_neg hne, hq,
            if_pos hnext, Int.toNat_natCast]
        · rw [hslots, update_moved]
          rw [moved, hslot, Option.bind_some, if_neg hdead]
  | cons next rids ih =>
      obtain ⟨⟨header', values, hslot, _, hdead, hnext⟩, hrest⟩ := hfollows
      have hnext : header'.next = next := hnext
      obtain ⟨hnot, hrids⟩ := List.nodup_cons.mp hnodup
      obtain ⟨n, i, rfl, _⟩ := HeapFile.exists_nat_of_slot hslot
      obtain ⟨hi, p, s₁, hopen, hid, hlaid, hedit⟩ := hs.edit hslot
      obtain ⟨hread, _⟩ := hlaid.header hi
      obtain ⟨hlt, _⟩ := List.getElem?_eq_some_iff.mp hi
      obtain ⟨q, hq, hqid, hdirty, hfree, hqlaid⟩ := hlaid.deleteRecordPhysically hlt
      obtain ⟨hedits, hslots⟩ := hedit q _ hqid hdirty hfree hqlaid
      have hne : (⟨n, i⟩ : RID) ≠ header'.next := by
        rw [hnext]
        rintro rfl
        exact hnot List.mem_cons_self
      have hgo : header'.next ≠ .deleted := by
        intro hdel
        obtain ⟨_, _, hstored, _⟩ := hrest.1
        rw [← hnext, hdel] at hstored
        cases hstored
      -- the rest of the chain is still there
      have hsame : ∀ r ∈ next :: rids, (s₁.put n q).view.slot r = s.view.slot r := by
        intro r hr
        rw [hslots, Function.update_of_ne]
        rintro rfl
        exact hnot hr
      obtain ⟨s', hcollapse, hedits', hslots'⟩ := ih (hedits.sound hs) (hrest.congr hsame)
        hrids hdead
      refine ⟨s', fun fuel hfuel => ?_, hedits.trans hedits', fun r => ?_⟩
      · obtain ⟨fuel, rfl, hle⟩ := hsucc hfuel
        simp only [collapse, if_neg hheader, hopen, Outcome.ok_bind, hread, if_neg hne, hq,
          if_neg hgo, Int.toNat_natCast]
        rw [hnext]
        exact hcollapse fuel hle
      · rw [hslots' r]
        by_cases hr : r ∈ next :: rids
        · rw [if_pos hr, if_pos (List.mem_cons_of_mem _ hr), moved, moved, hsame r hr]
        · rw [if_neg hr, hslots]
          by_cases hrn : r = ⟨n, i⟩
          · rw [hrn, Function.update_self, if_pos List.mem_cons_self, moved, hslot,
              Option.bind_some, if_neg hdead]
          · rw [Function.update_of_ne hrn, if_neg]
            rw [List.mem_cons]
            exact not_or.mpr ⟨hrn, hr⟩

end Collapse

/-! ## All tuples -/

/-- The tuple starts before position `k` of page `n`. -/
def Before (n k : Nat) (first : RID) : Prop :=
  first.pageNum < n ∨ first.pageNum = n ∧ first.dirSlot < k

instance (n k : Nat) (first : RID) : Decidable (Before n k first) :=
  inferInstanceAs (Decidable (_ ∨ _))

/-- What is stored once the tuples in `done` have been treated. -/
def collapsed (slots : SlotMap) (done : RID → Prop) [DecidablePred done] : SlotMap := fun rid =>
  (slots rid).bind fun e => if done e.1.first then moved slots rid else some e

section Collapsed

variable {slots : SlotMap} {rid : RID} {header : RecordHeader} {values : List Value}
  {done done' : RID → Prop} [DecidablePred done] [DecidablePred done']

theorem collapsed_done (hslot : slots rid = some (header, values)) (hdone : done header.first) :
    collapsed slots done rid = moved slots rid := by
  rw [collapsed, hslot, Option.bind_some, if_pos hdone]

theorem collapsed_undone (hslot : slots rid = some (header, values))
    (hdone : ¬ done header.first) : collapsed slots done rid = some (header, values) := by
  rw [collapsed, hslot, Option.bind_some, if_neg hdone]

theorem collapsed_none (hslot : slots rid = none) : collapsed slots done rid = none := by
  rw [collapsed, hslot, Option.bind_none]

theorem moved_live (hslot : slots rid = some (header, values)) (hlive : header.tMax = 0) :
    moved slots rid = some ({ header with first := rid }, values) := by
  rw [moved, hslot, Option.bind_some, if_pos hlive]

theorem moved_dead (hslot : slots rid = some (header, values)) (hdead : header.tMax ≠ 0) :
    moved slots rid = none := by
  rw [moved, hslot, Option.bind_some, if_neg hdead]

theorem collapsed_congr (h : ∀ rid header values, slots rid = some (header, values) →
    (done header.first ↔ done' header.first)) : collapsed slots done = collapsed slots done' := by
  funext rid
  cases hslot : slots rid with
  | none => rw [collapsed_none hslot, collapsed_none hslot]
  | some e =>
      obtain ⟨header, values⟩ := e
      by_cases hdone : done header.first
      · rw [collapsed_done hslot hdone, collapsed_done hslot ((h _ _ _ hslot).mp hdone)]
      · rw [collapsed_undone hslot hdone,
          collapsed_undone hslot fun hdone' => hdone ((h _ _ _ hslot).mpr hdone')]

theorem Before.succ {n k : Nat} {first : RID} :
    Before n (k + 1) first ↔ Before n k first ∨ first = ⟨n, k⟩ := by
  obtain ⟨m, j⟩ := first
  unfold Before
  simp only [RID.mk.injEq]
  push_cast
  omega

theorem not_before_self (n k : Nat) : ¬ Before n k ⟨n, k⟩ := by
  unfold Before
  dsimp only
  omega

/-- A place where no tuple starts. -/
theorem collapsed_succ_of_not_first (hw : WellFormed slots) {n k : Nat}
    (hnot : ∀ header values, slots ⟨n, k⟩ = some (header, values) → header.first ≠ ⟨n, k⟩) :
    collapsed slots (Before n k) = collapsed slots (Before n (k + 1)) := by
  refine collapsed_congr fun rid header values hslot => ?_
  rw [Before.succ]
  refine ⟨Or.inl, fun h => h.resolve_right fun hfirst => ?_⟩
  obtain ⟨header', values', hslot', hfirst'⟩ := hw.first_stored hslot
  rw [hfirst] at hslot' hfirst'
  exact hnot header' values' hslot' hfirst'

/-- A tuple of one version is as it should be. -/
theorem collapsed_succ_of_live (hw : WellFormed slots) (hdeleted : slots .deleted = none)
    {n k : Nat} (hslot : slots ⟨n, k⟩ = some (header, values)) (hfirst : header.first = ⟨n, k⟩)
    (hlive : header.tMax = 0) :
    collapsed slots (Before n k) = collapsed slots (Before n (k + 1)) := by
  obtain ⟨rids, hchain, hmem⟩ := hw _ header values hslot
  have hhead := hchain.head
  obtain ⟨hlast, _⟩ := hchain.follows.live_last hmem hslot hlive
  rw [hfirst] at hhead
  obtain ⟨rest, rfl⟩ := List.head?_eq_some_iff.mp hhead
  -- the first version is the last
  have hrest : rest = [] := by
    by_contra hne
    rw [List.getLast?_cons, List.getLast?_eq_some_getLast hne] at hlast
    have hin : (⟨n, k⟩ : RID) ∈ rest := by
      have hget : rest.getLast hne = ⟨n, k⟩ := by simpa using hlast
      rw [← hget]
      exact List.getLast_mem hne
    exact (List.nodup_cons.mp hchain.nodup).1 hin
  subst hrest
  funext rid
  cases hrid : slots rid with
  | none => rw [collapsed_none hrid, collapsed_none hrid]
  | some e =>
      obtain ⟨header', values'⟩ := e
      by_cases hbefore : Before n k header'.first
      · rw [collapsed_done hrid hbefore, collapsed_done hrid (Before.succ.mpr (.inl hbefore))]
      · rw [collapsed_undone hrid hbefore]
        by_cases hown : header'.first = ⟨n, k⟩
        · have hchain' : VersionChain slots header'.first [⟨n, k⟩] := by
            rw [hfirst] at hchain
            rw [hown]
            exact hchain
          obtain rfl := List.mem_singleton.mp (hw.mem_chain hdeleted hrid hchain')
          rw [hslot] at hrid
          cases hrid
          rw [collapsed_done hslot (Before.succ.mpr (.inr hfirst)), moved_live hslot hlive,
            ← hfirst]
        · rw [collapsed_undone hrid fun h => (Before.succ.mp h).elim hbefore hown]

/-- A tuple that has been updated or deleted, after its own walk. -/
theorem collapsed_succ_of_dead (hw : WellFormed slots) (hdeleted : slots .deleted = none)
    {n k : Nat} {rids : List RID} (hchain : VersionChain slots ⟨n, k⟩ rids) (rid : RID) :
    (if rid ∈ rids then moved slots rid else collapsed slots (Before n k) rid) =
      collapsed slots (Before n (k + 1)) rid := by
  cases hrid : slots rid with
  | none =>
      rw [collapsed_none hrid, collapsed_none hrid, moved, hrid]
      simp
  | some e =>
      obtain ⟨header, values⟩ := e
      by_cases hown : header.first = ⟨n, k⟩
      · have hmem : rid ∈ rids := hw.mem_chain hdeleted hrid (hown ▸ hchain)
        rw [if_pos hmem, collapsed_done hrid (Before.succ.mpr (.inr hown))]
      · have hmem : rid ∉ rids := by
          intro hmem
          obtain ⟨header', values', hslot', hfirst'⟩ := hchain.follows.slot hmem
          rw [hrid] at hslot'
          cases hslot'
          exact hown hfirst'
        rw [if_neg hmem]
        by_cases hbefore : Before n k header.first
        · rw [collapsed_done hrid hbefore, collapsed_done hrid (Before.succ.mpr (.inl hbefore))]
        · rw [collapsed_undone hrid hbefore,
            collapsed_undone hrid fun h => (Before.succ.mp h).elim hbefore hown]

end Collapsed

end HeapStore

end Iic3413Db.Storage
