/-
  Storage/HeapFile/FullVacuumSweep.lean --- the walk of `full_vacuum` over the slots.

  At position `k` of page `n` the tuples that start before it have been treated.
  The pages before `n` are compacted, with the free space of what was stored when
  the walk left them: a tuple that starts further on can still lose versions there,
  and their bytes stay allocated.
-/
import Iic3413Db.Storage.HeapFile.FullVacuumTuples

set_option autoImplicit false

namespace Iic3413Db.Storage

open Iic3413Db.Foundation Iic3413Db.RelationalModel HeapFilePage

namespace HeapStore

/-- The walk stands before position `k` of page `n`.  Pages that had no slot when
it began are left by `vacuum` with a directory entry past the page. -/
structure Walk (s₀ : HeapStore) (n k : Nat) (s : HeapStore) : Prop where
  coherent : s.Coherent
  schema : s.schema = s₀.schema
  fileId : s.fileId = s₀.fileId
  victims : s.victims = s₀.victims
  pageCount : s.pageCount = s₀.pageCount
  slot : s.view.slot = collapsed s₀.view.slot (Before n k)
  lengths : ∀ m, n ≤ m → (s.view.contentsOf m).length = (s₀.view.contentsOf m).length
  ahead : ∀ m, n ≤ m → Blank (s.view.pages m) ∨ Laid s.schema (s.view.pages m) (s.view.contentsOf m)
  behind : ∀ m, m < n → s₀.view.contentsOf m ≠ [] →
    Laid s.schema (s.view.pages m) (s.view.contentsOf m) ∧ ∃ cs : Contents, cs ≠ [] ∧
      cs.length = (s.view.contentsOf m).length ∧
      getFreeSpace (s.view.pages m) = .ok (4096 - 8 - 4 * cs.length - cs.liveSize) ∧
      ∀ i : Nat, cs[i]?.join = collapsed s₀.view.slot (Before (m + 1) 0) ⟨m, i⟩
  junk : ∀ m, m < n → s₀.view.contentsOf m = [] →
    getDirCount (s.view.pages m) = .ok 1 ∧ getDir (s.view.pages m) 0 = .ok (2 ^ 31 - 1)
  disk : (∀ i, s₀.victims i = none) → s.disk = s₀.disk

section Walk

variable {s₀ s s' : HeapStore} {n k : Nat}

theorem contents_ne_nil_of_slot {hf : HeapFile} {m i : Nat} {e : RecordHeader × List Value}
    (hslot : hf.slot ⟨m, i⟩ = some e) : hf.contentsOf m ≠ [] := by
  intro hnil
  rw [HeapFile.slot_nat, hnil] at hslot
  cases hslot

/-- The walk keeps the pages that store something fit to be worked on. -/
theorem Walk.sound (h : Walk s₀ n k s) (hs₀ : s₀.Sound) : s.Sound := by
  refine ⟨h.coherent, by rw [h.pageCount]; exact hs₀.bound, fun m i e hslot => ?_⟩
  have hne := contents_ne_nil_of_slot hslot
  rw [h.slot] at hslot
  cases hstored : s₀.view.slot ⟨m, i⟩ with
  | none =>
      rw [collapsed_none hstored] at hslot
      cases hslot
  | some e₀ =>
      refine ⟨by rw [h.pageCount]; exact (hs₀.page m i e₀ hstored).1, ?_⟩
      rcases Nat.lt_or_ge m n with hm | hm
      · exact (h.behind m hm (contents_ne_nil_of_slot hstored)).1
      · refine (h.ahead m hm).resolve_left fun hblank => hne ?_
        exact hblank.contents_eq

/-- Editing slots on the way. -/
theorem Walk.edits {k' : Nat} (h : Walk s₀ n k s) (hedits : Edits s s')
    (hslot : s'.view.slot = collapsed s₀.view.slot (Before n k')) : Walk s₀ n k' s' where
  coherent := hedits.coherent
  schema := hedits.schema.trans h.schema
  fileId := hedits.fileId.trans h.fileId
  victims := hedits.victims.trans h.victims
  pageCount := hedits.pageCount.trans h.pageCount
  slot := hslot
  lengths m hm := (hedits.lengths m).trans (h.lengths m hm)
  ahead m hm := by
    rcases h.ahead m hm with hblank | hlaid
    · left
      rw [hedits.untouched m fun i => ?_]
      · exact hblank
      · rw [HeapFile.slot_nat, HeapFile.contentsOf, hblank.contents_eq]
        rfl
    · exact .inr (hedits.laid m hlaid)
  behind m hm hne := by
    obtain ⟨hlaid, cs, hc, hlen, hfree, hslots⟩ := h.behind m hm hne
    exact ⟨hedits.laid m hlaid, cs, hc, hlen.trans (hedits.lengths m).symm,
      (hedits.free m).trans hfree, hslots⟩
  junk m hm hnil := by
    rw [hedits.untouched m fun i => ?_]
    · exact h.junk m hm hnil
    · rw [h.slot, collapsed_none]
      rw [HeapFile.slot_nat, hnil]
      rfl
  disk hnone := (hedits.disk fun i => h.victims ▸ hnone i).trans (h.disk hnone)

theorem slot_of_contentsOf {hf hf' : HeapFile}
    (h : ∀ m i : Nat, (hf'.contentsOf m)[i]?.join = (hf.contentsOf m)[i]?.join) :
    hf'.slot = hf.slot := by
  refine HeapFile.slot_ext fun m i => ?_
  rw [HeapFile.slot_nat, HeapFile.slot_nat, h]

/-- The page the walk is on opens. -/
theorem Walk.openPage (h : Walk s₀ n k s) (hs₀ : s₀.Sound) (hn : n < s₀.pageCount) :
    ∃ p s₁, s.openPage n = .ok (p, s₁) ∧ Walk s₀ n k s₁ ∧ p.pageId = ⟨s₀.fileId, n⟩ ∧
      Laid s₁.schema p (s₁.view.contentsOf n) ∧ Shows s s₁ n p.bytes := by
  have hbound := hs₀.bound
  have hn' : n < s.pageCount := by rw [h.pageCount]; exact hn
  -- opened, the page shows the slots it had
  have hopened : ∃ p s₁, s.openPage n = .ok (p, s₁) ∧ p.pageId = ⟨s.fileId, n⟩ ∧
      Laid s.schema p (s.view.contentsOf n) ∧ Shows s s₁ n p.bytes := by
    rcases h.ahead n le_rfl with hblank | hlaid
    · obtain ⟨p, s₁, hopen, hid, hlaid, hshows⟩ :=
        h.coherent.openPage_blank (Nat.le_of_lt hn') (by omega) hblank
      refine ⟨p, s₁, hopen, hid, ?_, hshows⟩
      rw [HeapFile.contentsOf, hblank.contents_eq]
      exact hlaid
    · obtain ⟨p, s₁, hopen, hid, hlaid', hshows, hbytes⟩ :=
        h.coherent.openPage_laid hn' (by rw [h.pageCount]; exact hbound) hlaid
      rw [← hbytes] at hshows
      exact ⟨p, s₁, hopen, hid, hlaid', hshows⟩
  obtain ⟨p, s₁, hopen, hid, hlaid, hshows⟩ := hopened
  have hpage : Laid s.schema (s₁.view.pages n) (s.view.contentsOf n) := by
    refine laid_of_bytes hlaid ?_
    rw [hshows.page]
    rfl
  have hcontents : ∀ m, s₁.view.contentsOf m = s.view.contentsOf m := by
    intro m
    by_cases hm : m = n
    · subst hm
      have hschema : s₁.view.schema = s.schema := hshows.schema
      rw [HeapFile.contentsOf, hschema, hpage.contents_eq]
    · exact hshows.contentsOf hm
  refine ⟨p, s₁, hopen, ⟨hshows.coherent, hshows.schema.trans h.schema,
    hshows.fileId.trans h.fileId, hshows.victims.trans h.victims, ?_, ?_, ?_, ?_, ?_, ?_, ?_⟩, ?_, ?_,
    hshows⟩
  · rw [hshows.count, ← h.pageCount]
    omega
  · rw [← h.slot]
    exact slot_of_contentsOf fun m i => by rw [hcontents]
  · intro m hm
    rw [hcontents]
    exact h.lengths m hm
  · intro m hm
    rw [hcontents, hshows.schema]
    by_cases hmn : m = n
    · subst hmn
      exact .inr hpage
    · rw [hshows.pages hmn]
      exact h.ahead m hm
  · intro m hm hne
    rw [hcontents, hshows.schema, hshows.pages (Nat.ne_of_lt hm)]
    exact h.behind m hm hne
  · intro m hm hnil
    rw [hshows.pages (Nat.ne_of_lt hm)]
    exact h.junk m hm hnil
  · intro hnone
    exact (hshows.disk fun i => h.victims ▸ hnone i).trans (h.disk hnone)
  · rw [hid, h.fileId]
  · rw [hcontents, hshows.schema]
    exact hlaid

/-- What is stored at the position, seen from the start of the walk. -/
theorem Walk.stored (h : Walk s₀ n k s) {rid : RID} {e : RecordHeader × List Value}
    (hslot : s.view.slot rid = some e) :
    ∃ header values, s₀.view.slot rid = some (header, values) ∧
      (Before n k header.first ∧ moved s₀.view.slot rid = some e ∨
        ¬ Before n k header.first ∧ e = (header, values)) := by
  rw [h.slot] at hslot
  cases hstored : s₀.view.slot rid with
  | none =>
      rw [collapsed_none hstored] at hslot
      cases hslot
  | some e₀ =>
      obtain ⟨header, values⟩ := e₀
      refine ⟨header, values, rfl, ?_⟩
      by_cases hbefore : Before n k header.first
      · rw [collapsed_done hstored hbefore] at hslot
        exact .inl ⟨hbefore, hslot⟩
      · rw [collapsed_undone hstored hbefore] at hslot
        exact .inr ⟨hbefore, (Option.some.inj hslot).symm⟩

/-- Where a tuple that is still to be treated starts, its first version is. -/
theorem Walk.slot_first (h : Walk s₀ n k s) {header : RecordHeader} {values : List Value}
    (hslot : s₀.view.slot ⟨n, k⟩ = some (header, values)) (hfirst : header.first = ⟨n, k⟩) :
    s.view.slot ⟨n, k⟩ = some (header, values) := by
  rw [h.slot]
  refine collapsed_undone hslot ?_
  rw [hfirst]
  exact not_before_self n k

/-- The tuple that starts at the position, if one does, and has one version. -/
theorem Walk.collapsed_succ (h : Walk s₀ n k s) (hw : WellFormed s₀.view.slot)
    (hlive : ∀ header values, s.view.slot ⟨n, k⟩ = some (header, values) →
      header.first = ⟨n, k⟩ → header.tMax = 0) :
    s.view.slot = collapsed s₀.view.slot (Before n (k + 1)) := by
  rw [h.slot]
  by_cases hnot : ∀ header values, s₀.view.slot ⟨n, k⟩ = some (header, values) →
      header.first ≠ ⟨n, k⟩
  · exact collapsed_succ_of_not_first hw hnot
  · push Not at hnot
    obtain ⟨header, values, hslot, hfirst⟩ := hnot
    exact collapsed_succ_of_live hw rfl hslot hfirst
      (hlive header values (h.slot_first hslot hfirst) hfirst)

/-- The tuple that starts at the position, if its first version has ended. -/
theorem Walk.collapse (h : Walk s₀ n k s) (hs₀ : s₀.Sound) (hw : WellFormed s₀.view.slot)
    {header : RecordHeader} {values : List Value}
    (hslot : s.view.slot ⟨n, k⟩ = some (header, values)) (hdead : header.tMax ≠ 0)
    (hfirst : header.first = ⟨n, k⟩) :
    ∃ s₁, Walk s₀ n (k + 1) s₁ ∧ ∃ needed, ∀ fuel, needed ≤ fuel →
      collapse fuel s ⟨n, k⟩ header = .ok (some s₁) := by
  obtain ⟨header₀, values₀, hstored, ⟨_, hmoved⟩ | ⟨_, heq⟩⟩ := h.stored hslot
  · -- a version that was made the first is live
    by_cases hlive : header₀.tMax = 0
    · rw [moved_live hstored hlive] at hmoved
      cases hmoved
      exact absurd hlive hdead
    · rw [moved_dead hstored hlive] at hmoved
      cases hmoved
  · cases heq
    obtain ⟨rids, hchain, _⟩ := hw _ header values hstored
    rw [hfirst] at hchain
    obtain ⟨rest, rfl⟩ := List.head?_eq_some_iff.mp hchain.head
    have hsame : ∀ r ∈ (⟨n, k⟩ : RID) :: rest, s.view.slot r = s₀.view.slot r := by
      intro r hr
      obtain ⟨header', values', hstored', hfirst'⟩ := hchain.follows.slot hr
      rw [h.slot, hstored']
      refine collapsed_undone hstored' ?_
      rw [hfirst']
      exact not_before_self n k
    obtain ⟨s₁, hcollapse, hedits, hslots⟩ := (h.sound hs₀).collapse_spec
      (hchain.follows.congr hsame) hchain.nodup hdead
    refine ⟨s₁, h.edits hedits ?_, rest.length + 1, hcollapse⟩
    funext r
    rw [hslots, ← collapsed_succ_of_dead hw rfl hchain, h.slot]
    by_cases hr : r ∈ (⟨n, k⟩ : RID) :: rest
    · rw [if_pos hr, if_pos hr, ← h.slot, moved, moved, hsame r hr]
    · rw [if_neg hr, if_neg hr]

variable (total : Nat) (bufs : Nat → PageBytes)

/-- One slot. -/
theorem Walk.sweep_slot (h : Walk s₀ n k s) (hs₀ : s₀.Sound) (hw : WellFormed s₀.view.slot)
    (hn : n < s₀.pageCount) (hk : k < (s₀.view.contentsOf n).length) :
    ∃ s₁, Walk s₀ n (k + 1) s₁ ∧ ∃ needed, ∀ fuel, needed ≤ fuel →
      sweep total bufs (fuel + 1) s n ((k : Int) - 1) = sweep total bufs fuel s₁ n k := by
  obtain ⟨p, s₁, hopen, hwalk, _, hlaid, _⟩ := h.openPage hs₀ hn
  have hlen := hwalk.lengths n le_rfl
  have hcount : ¬ ((s₁.view.contentsOf n).length : Int) ≤ k := by omega
  obtain ⟨slot, hget⟩ : ∃ slot, (s₁.view.contentsOf n)[k]? = some slot :=
    ⟨_, List.getElem?_eq_getElem (by omega)⟩
  have hslot : s₁.view.slot ⟨n, k⟩ = slot := by
    rw [HeapFile.slot_nat, hget]
    rfl
  cases slot with
  | none =>
      have hsucc := hwalk.collapsed_succ hw fun header values hsome => by
        rw [hslot] at hsome
        cases hsome
      refine ⟨s₁, hwalk.edits (.refl hwalk.coherent) hsucc, 0, fun fuel _ => ?_⟩
      rw [sweep]
      simp only [hopen, Outcome.ok_bind, hlaid.getDirCount_eq, if_neg hcount, sub_add_cancel,
        hlaid.header_dead hget]
  | some e =>
      obtain ⟨header, values⟩ := e
      obtain ⟨hread, _⟩ := hlaid.header hget
      by_cases hfirst : (⟨n, k⟩ : RID) = header.first
      · by_cases hlive : header.tMax = 0
        · have hsucc := hwalk.collapsed_succ hw fun header' values' hsome _ => by
            rw [hslot] at hsome
            cases hsome
            exact hlive
          refine ⟨s₁, hwalk.edits (.refl hwalk.coherent) hsucc, 1, fun fuel hfuel => ?_⟩
          obtain ⟨fuel, rfl⟩ : ∃ m, fuel = m + 1 := ⟨fuel - 1, by omega⟩
          rw [sweep]
          simp only [hopen, Outcome.ok_bind, hlaid.getDirCount_eq, if_neg hcount, sub_add_cancel,
            hread, if_pos hfirst, HeapStore.collapse, if_pos hlive]
        · obtain ⟨s₂, hwalk', needed, hcollapse⟩ :=
            hwalk.collapse hs₀ hw hslot hlive hfirst.symm
          refine ⟨s₂, hwalk', needed, fun fuel hfuel => ?_⟩
          rw [sweep]
          simp only [hopen, Outcome.ok_bind, hlaid.getDirCount_eq, if_neg hcount, sub_add_cancel,
            hread, if_pos hfirst, hcollapse fuel hfuel]
      · have hsucc := hwalk.collapsed_succ hw fun header' values' hsome hfirst' => by
          rw [hslot] at hsome
          cases hsome
          exact absurd hfirst'.symm hfirst
        refine ⟨s₁, hwalk.edits (.refl hwalk.coherent) hsucc, 0, fun fuel _ => ?_⟩
        rw [sweep]
        simp only [hopen, Outcome.ok_bind, hlaid.getDirCount_eq, if_neg hcount, sub_add_cancel,
          hread, if_neg hfirst]

/-- Past the last position of a page and before the first one of the next, the same
tuples have been treated. -/
theorem collapsed_next_page (hw : WellFormed s₀.view.slot)
    (hk : (s₀.view.contentsOf n).length ≤ k) (hle : k ≤ (s₀.view.contentsOf n).length) :
    collapsed s₀.view.slot (Before n k) = collapsed s₀.view.slot (Before (n + 1) 0) := by
  refine collapsed_congr fun rid header values hstored => ?_
  -- a tuple starts at a slot that is there
  obtain ⟨header', values', hfirst, _⟩ := hw.first_stored hstored
  obtain ⟨m, i, heq, hi⟩ := HeapFile.exists_nat_of_slot hfirst
  obtain ⟨hlt, _⟩ := List.getElem?_eq_some_iff.mp hi
  rw [heq]
  unfold Before
  dsimp only
  by_cases hm : m = n
  · subst hm
    omega
  · omega

/-- What `vacuum` makes of page `n`: it is compacted, or its one slot cannot be
read. -/
def Left (s₀ s : HeapStore) (n : Nat) (q : Page) : Prop :=
  (s₀.view.contentsOf n ≠ [] ∧ ∃ cs : Contents, cs ≠ [] ∧ Laid s₀.schema q cs ∧
    (∀ i : Nat, cs[i]?.join = (s.view.contentsOf n)[i]?.join) ∧
    getFreeSpace q = .ok (4096 - 8 - 4 * cs.length - cs.liveSize)) ∨
  s₀.view.contentsOf n = [] ∧ getDirCount q = .ok 1 ∧ getDir q 0 = .ok (2 ^ 31 - 1)

theorem Left.join {q : Page} (h : Left s₀ s n q) (hlengths : (s.view.contentsOf n).length =
    (s₀.view.contentsOf n).length) (i : Nat) :
    (contents s₀.schema q)[i]?.join = (s.view.contentsOf n)[i]?.join := by
  rcases h with ⟨_, cs, _, hlaid, hsame, _⟩ | ⟨hnil, hcount, hdir⟩
  · rw [hlaid.contents_eq, hsame]
  · have hnil' : s.view.contentsOf n = [] := by
      rw [← List.length_eq_zero_iff, hlengths, hnil]
      rfl
    rw [junk_contents s₀.schema hcount hdir, hnil']
    cases i with
    | zero => rfl
    | succ i => rfl

theorem Left.congr {p q : Page} (h : Left s₀ s n q) (hbytes : p.bytes = q.bytes) :
    Left s₀ s n p := by
  rcases h with ⟨hne, cs, hc, hlaid, hsame, hfree⟩ | ⟨hnil, hcount, hdir⟩
  · exact .inl ⟨hne, cs, hc, laid_of_bytes hlaid hbytes, hsame,
      (getFreeSpace_congr hbytes).trans hfree⟩
  · exact .inr ⟨hnil, (readInt32_congr hbytes _).trans hcount,
      (readInt32_congr hbytes _).trans hdir⟩

/-- The walk goes to the next page. -/
theorem Walk.next_page (h : Walk s₀ n k s) (hw : WellFormed s₀.view.slot) (hn : n < s₀.pageCount)
    (hk : (s₀.view.contentsOf n).length = k) {q : Page} (hshows : Shows s s' n q.bytes)
    (hleft : Left s₀ s n q) : Walk s₀ (n + 1) 0 s' := by
  have hschema : s'.schema = s₀.schema := hshows.schema.trans h.schema
  have hview : s'.view.schema = s₀.schema := hschema
  have hpage : Left s₀ s n (s'.view.pages n) := by
    refine hleft.congr ?_
    rw [hshows.page]
    rfl
  have hjoin := hpage.join (h.lengths n le_rfl)
  rw [← hview] at hjoin
  have hslot : s'.view.slot = s.view.slot := by
    refine slot_of_contentsOf fun m i => ?_
    by_cases hm : m = n
    · subst hm
      exact hjoin i
    · rw [hshows.contentsOf hm]
  have hcollapsed : s'.view.slot = collapsed s₀.view.slot (Before (n + 1) 0) := by
    rw [hslot, h.slot, collapsed_next_page hw hk.le hk.ge]
  refine ⟨hshows.coherent, hschema, hshows.fileId.trans h.fileId, hshows.victims.trans h.victims,
    ?_, hcollapsed, fun m hm => ?_, fun m hm => ?_, fun m hm hne => ?_, fun m hm hnil => ?_,
    fun hnone => ?_⟩
  · rw [hshows.count, h.pageCount]
    omega
  · rw [hshows.contentsOf (show m ≠ n by omega)]
    exact h.lengths m (by omega)
  · have hmn : m ≠ n := by omega
    rw [hshows.contentsOf hmn, hshows.pages hmn, hshows.schema]
    exact h.ahead m (by omega)
  · by_cases hmn : m = n
    · subst hmn
      rcases hpage with ⟨_, cs, hc, hlaid, hsame, hfree⟩ | ⟨hnil, _⟩
      · have hcontents : s'.view.contentsOf m = cs := by
          rw [HeapFile.contentsOf, hview, hlaid.contents_eq]
        rw [hcontents, hschema]
        refine ⟨hlaid, cs, hc, rfl, hfree, fun i => ?_⟩
        rw [hsame, ← HeapFile.slot_nat, ← hslot, hcollapsed]
      · exact absurd hnil hne
    · rw [hshows.contentsOf hmn, hshows.pages hmn, hshows.schema]
      exact h.behind m (by omega) hne
  · by_cases hmn : m = n
    · subst hmn
      rcases hpage with ⟨hne, _⟩ | ⟨_, hjunk⟩
      · exact absurd hnil hne
      · exact hjunk
    · rw [hshows.pages hmn]
      exact h.junk m (by omega) hnil
  · exact (hshows.disk fun i => h.victims ▸ hnone i).trans (h.disk hnone)

/-- The last position of a page. -/
theorem Walk.sweep_page (h : Walk s₀ n k s) (hs₀ : s₀.Sound) (hw : WellFormed s₀.view.slot)
    (hn : n < s₀.pageCount) (hk : (s₀.view.contentsOf n).length = k)
    (hjunk : s₀.view.contentsOf n = [] → intValue ((bufs n).slice 8 4) = 2 ^ 31 - 1) :
    ∃ s₁, Walk s₀ (n + 1) 0 s₁ ∧ ∀ fuel, sweep total bufs (fuel + 1) s n ((k : Int) - 1) =
      if n + 1 < total then sweep total bufs fuel s₁ (n + 1) (-1)
      else .ok (some (n + 1, s₁)) := by
  obtain ⟨p, s₁, hopen, hwalk, hid, hlaid, hshows⟩ := h.openPage hs₀ hn
  have hlen := hwalk.lengths n le_rfl
  have hcount : ((s₁.view.contentsOf n).length : Int) ≤ k := by omega
  have hvac : ∃ q, vacuum s₁.schema p (bufs n) = .ok q ∧ q.pageId = p.pageId ∧ q.dirty = true ∧
      Left s₀ s₁ n q := by
    by_cases hnil : s₀.view.contentsOf n = []
    · have hnil' : s₁.view.contentsOf n = [] := by
        rw [← List.length_eq_zero_iff, hlen, hnil]
        rfl
      rw [hnil'] at hlaid
      obtain ⟨q, hq, hqid, hdirty, hone, hdir⟩ := hlaid.vacuum_nil (bufs n)
      rw [hjunk hnil] at hdir
      exact ⟨q, hq, hqid, hdirty, .inr ⟨hnil, hone, hdir⟩⟩
    · have hne : s₁.view.contentsOf n ≠ [] := by
        intro hnil'
        rw [hnil'] at hlen
        exact hnil (List.length_eq_zero_iff.mp hlen.symm)
      obtain ⟨q, cs, hq, hqid, hdirty, hqlaid, hc, hsame, hfree⟩ := hlaid.vacuum hne (bufs n)
      rw [hwalk.schema] at hqlaid
      exact ⟨q, hq, hqid, hdirty, .inl ⟨hnil, cs, hc, hqlaid, hsame, hfree⟩⟩
  obtain ⟨q, hq, hqid, hdirty, hleft⟩ := hvac
  obtain ⟨frame, hframe⟩ := hshows.frame
  have hput : Shows s₁ (s₁.put n q) n q.bytes :=
    (hwalk.coherent.shows_self hframe).put (by rw [hqid, hid, hwalk.fileId]) hdirty
  refine ⟨s₁.put n q, hwalk.next_page hw hn hk hput hleft, fun fuel => ?_⟩
  rw [sweep]
  simp only [hopen, Outcome.ok_bind, hlaid.getDirCount_eq, if_pos hcount, sub_add_cancel, hq]

/-- The positions of a page that are left. -/
theorem Walk.sweep_rest (hs₀ : s₀.Sound) (hw : WellFormed s₀.view.slot) (hn : n < s₀.pageCount)
    (hjunk : s₀.view.contentsOf n = [] → intValue ((bufs n).slice 8 4) = 2 ^ 31 - 1) :
    ∀ (slots k : Nat) (s : HeapStore), k + slots = (s₀.view.contentsOf n).length →
      Walk s₀ n k s →
      ∃ s₁, Walk s₀ (n + 1) 0 s₁ ∧ ∃ needed, ∀ fuel, needed ≤ fuel →
        sweep total bufs (fuel + slots + 1) s n ((k : Int) - 1) =
          if n + 1 < total then sweep total bufs fuel s₁ (n + 1) (-1)
          else .ok (some (n + 1, s₁)) := by
  intro slots
  induction slots with
  | zero =>
      intro k s hlen h
      obtain ⟨s₁, hwalk, hsweep⟩ := h.sweep_page total bufs hs₀ hw hn hlen.symm hjunk
      exact ⟨s₁, hwalk, 0, fun fuel _ => hsweep fuel⟩
  | succ slots ih =>
      intro k s hlen h
      obtain ⟨s₁, hwalk, needed, hslot⟩ := h.sweep_slot total bufs hs₀ hw hn (by omega)
      obtain ⟨s₂, hwalk', needed', hrest⟩ := ih (k + 1) s₁ (by omega) hwalk
      refine ⟨s₂, hwalk', max needed needed', fun fuel hfuel => ?_⟩
      have hpos : ((k + 1 : Nat) : Int) - 1 = k := by omega
      rw [← hrest fuel (by omega), hpos]
      exact hslot (fuel + slots + 1) (by omega)

/-- The whole walk. -/
theorem Walk.sweep_spec (hs₀ : s₀.Sound) (hw : WellFormed s₀.view.slot)
    (htotal : ∀ n, n < s₀.pageCount → (n + 1 < total ↔ n + 1 < s₀.pageCount))
    (hjunk : ∀ n, n < s₀.pageCount → s₀.view.contentsOf n = [] →
      intValue ((bufs n).slice 8 4) = 2 ^ 31 - 1) :
    ∀ (pages n : Nat) (s : HeapStore), n + pages + 1 = s₀.pageCount → Walk s₀ n 0 s →
      ∃ s₁, Walk s₀ s₀.pageCount 0 s₁ ∧ ∃ needed, ∀ fuel, needed ≤ fuel →
        sweep total bufs fuel s n (-1) = .ok (some (s₀.pageCount, s₁)) := by
  intro pages
  induction pages with
  | zero =>
      intro n s hpages h
      have hn : n < s₀.pageCount := by omega
      obtain ⟨s₁, hwalk, needed, hsweep⟩ := Walk.sweep_rest total bufs hs₀ hw hn (hjunk n hn)
        (s₀.view.contentsOf n).length 0 s (by omega) h
      have hlast : n + 1 = s₀.pageCount := by omega
      have hend : ¬ n + 1 < total := by
        rw [htotal n hn]
        omega
      rw [hlast] at hwalk
      refine ⟨s₁, hwalk, needed + (s₀.view.contentsOf n).length + 1, fun fuel hfuel => ?_⟩
      obtain ⟨m, rfl⟩ := Nat.exists_eq_add_of_le' hfuel
      have hrun := hsweep (m + needed) (by omega)
      rw [if_neg hend, hlast] at hrun
      rw [← hrun]
      congr 1
      omega
  | succ pages ih =>
      intro n s hpages h
      have hn : n < s₀.pageCount := by omega
      obtain ⟨s₁, hwalk, needed, hsweep⟩ := Walk.sweep_rest total bufs hs₀ hw hn (hjunk n hn)
        (s₀.view.contentsOf n).length 0 s (by omega) h
      obtain ⟨s₂, hwalk', needed', hrest⟩ := ih (n + 1) s₁ (by omega) hwalk
      have hgo : n + 1 < total := by
        rw [htotal n hn]
        omega
      refine ⟨s₂, hwalk', needed + needed' + (s₀.view.contentsOf n).length + 1,
        fun fuel hfuel => ?_⟩
      obtain ⟨m, rfl⟩ := Nat.exists_eq_add_of_le' hfuel
      have hrun := hsweep (m + needed + needed') (by omega)
      rw [if_pos hgo, hrest _ (by omega)] at hrun
      rw [← hrun]
      congr 1
      omega

end Walk

end HeapStore

end Iic3413Db.Storage
