/-
  Storage/HeapFile/ChainReads.lean --- what a READ_COMMITTED transaction reads of the version
  chains, whatever the other transactions have under way.

  `chains` gives each tuple the list of its versions.  A reader is shown a version by its header
  alone, and the row of a tuple is its first version that is shown.
-/
import Iic3413Db.Storage.HeapFile.VersionChains
import Mathlib.Data.List.Find

set_option autoImplicit false

namespace Iic3413Db.Storage

open Iic3413Db.RelationalModel Iic3413Db.System HeapFilePage

/-- `is_visible`, under READ_COMMITTED. -/
def shows (tm : TransactionManager) (txId : TxID) (header : RecordHeader) : Bool :=
  match tm.getState header.tMin with
  | .active => decide (header.tMin = txId ∧ header.tMax = 0)
  | .committed =>
      decide (header.tMax = 0 ∨ tm.getState header.tMax = .active ∧ header.tMax ≠ txId)

/-- The chain of each tuple, by first RID; no tuple, no version. -/
structure Chained (slots : SlotMap) (chains : RID → List RID) : Prop where
  chain : ∀ first, chains first ≠ [] → VersionChain slots first (chains first)
  cover : ∀ rid header values, slots rid = some (header, values) → rid ∈ chains header.first

/-- The row a reader gets for a tuple: the values of its first version that is shown, and the
first RID. -/
def chainRow (slots : SlotMap) (vis : RecordHeader → Bool) (chains : RID → List RID) (first : RID) :
    Option Record :=
  (firstShown slots vis (chains first)).bind fun rid =>
    (slots rid).map fun e => (⟨e.2⟩ : Record).pushRid first

/-- What full scans by the transaction return. -/
def ScansAs (tm : TransactionManager) (txId : TxID) (hf : HeapFile) (rows : List Record) : Prop :=
  ∃ needed, ∀ fuel, needed ≤ fuel → HeapFileIter.scan hf tm txId fuel = .ok (some rows)

theorem ScansAs.unique {tm : TransactionManager} {txId : TxID} {hf : HeapFile}
    {rows rows' : List Record} (h : ScansAs tm txId hf rows) (h' : ScansAs tm txId hf rows') :
    rows = rows' := by
  obtain ⟨needed, h⟩ := h
  obtain ⟨needed', h'⟩ := h'
  have heq := (h _ (Nat.le_max_left needed needed')).symm.trans
    (h' _ (Nat.le_max_right needed needed'))
  exact Option.some.inj (Except.ok.inj heq)

section Reads

variable {tm : TransactionManager} {txId : TxID} {slots : SlotMap} {chains : RID → List RID}
  {vis : RecordHeader → Bool} {first rid : RID} {header : RecordHeader} {values : List Value}
  {row : Record}

theorem isVisible_eq (hruns : tm.Runs txId .readCommitted) (header : RecordHeader) :
    HeapFile.isVisible tm header txId = .ok (shows tm txId header) := by
  simp only [HeapFile.isVisible, TransactionManager.getStates, hruns.isolationLevel,
    Outcome.ok_bind, shows]
  cases tm.getState header.tMin with
  | active => rfl
  | committed =>
      by_cases hend : header.tMax = 0
      · simp [hend]
      · cases tm.getState header.tMax <;> simp [hend]

/-! ## Chains -/

theorem WellFormed.exists_chained (hw : WellFormed slots) (hdeleted : slots .deleted = none) :
    ∃ chains, Chained slots chains := by
  have hone : ∀ first, ∃ rids, (rids ≠ [] → VersionChain slots first rids) ∧
      ∀ rids', VersionChain slots first rids' → rids = rids' := by
    intro first
    by_cases hex : ∃ rids, VersionChain slots first rids
    · obtain ⟨rids, h⟩ := hex
      exact ⟨rids, fun _ => h, fun rids' h' => h.unique hdeleted h'⟩
    · exact ⟨[], fun hne => absurd rfl hne, fun rids' h' => absurd ⟨rids', h'⟩ hex⟩
  choose chains hchain hunique using hone
  refine ⟨chains, hchain, fun rid header values hslot => ?_⟩
  obtain ⟨rids, h, hmem⟩ := hw rid header values hslot
  rwa [hunique _ rids h]

theorem Chained.slot (h : Chained slots chains) (hmem : rid ∈ chains first) :
    ∃ header values, slots rid = some (header, values) ∧ header.first = first :=
  (h.chain first (List.ne_nil_of_mem hmem)).follows.slot hmem

/-- A tuple starts at its first RID. -/
theorem Chained.first_mem (h : Chained slots chains) (hne : chains first ≠ []) :
    first ∈ chains first :=
  List.mem_of_head? (h.chain first hne).head

/-- The version a row is made of. -/
theorem Chained.row_some (h : Chained slots chains) (hrow : chainRow slots vis chains first = some row) :
    ∃ rid header values, firstShown slots vis (chains first) = some rid ∧ rid ∈ chains first ∧
      slots rid = some (header, values) ∧ header.first = first ∧ vis header = true ∧
      row = (⟨values⟩ : Record).pushRid first := by
  obtain ⟨rid, hshown, hmap⟩ := Option.bind_eq_some_iff.mp hrow
  obtain ⟨hmem, header, values, hslot, hvis⟩ := firstShown_some hshown
  rw [hslot, Option.map_some, Option.some.injEq] at hmap
  obtain ⟨header', values', hslot', hfirst⟩ := h.slot hmem
  rw [hslot] at hslot'
  cases hslot'
  exact ⟨rid, header, values, hshown, hmem, hslot, hfirst, hvis, hmap.symm⟩

theorem Chained.row_last (h : Chained slots chains) (hrow : chainRow slots vis chains first = some row) :
    row.values.getLast? = some (.rid first) := by
  obtain ⟨_, _, _, _, _, _, _, _, rfl⟩ := h.row_some hrow
  simp [Record.pushRid]

theorem Chained.row_valid (h : Chained slots chains) (hrow : chainRow slots vis chains first = some row) :
    row.invalid = false := by
  obtain ⟨_, _, _, _, _, _, _, _, rfl⟩ := h.row_some hrow
  simp [Record.invalid, Record.pushRid]

/-- A tuple with a row is stored. -/
theorem Chained.row_stored (h : Chained slots chains)
    (hrow : chainRow slots vis chains first = some row) :
    ∃ header values, slots first = some (header, values) ∧ header.first = first := by
  obtain ⟨_, _, _, _, hmem, _⟩ := h.row_some hrow
  exact h.slot (h.first_mem (List.ne_nil_of_mem hmem))

/-- A row depends on the versions of its tuple and on what is shown of them. -/
theorem chainRow_congr {slots' : SlotMap} {chains' : RID → List RID} {vis' : RecordHeader → Bool}
    (hchain : chains' first = chains first) (hsame : ∀ rid ∈ chains first, slots' rid = slots rid)
    (hvis : ∀ rid ∈ chains first, ∀ header values, slots rid = some (header, values) →
      vis' header = vis header) :
    chainRow slots' vis' chains' first = chainRow slots vis chains first := by
  have hshown : firstShown slots' vis' (chains first) = firstShown slots vis (chains first) := by
    refine List.find?_congr fun rid hmem => ?_
    rw [hsame rid hmem]
    cases hslot : slots rid with
    | none => rfl
    | some e => exact hvis rid hmem e.1 e.2 hslot
  rw [chainRow, chainRow, hchain, hshown]
  cases hfound : firstShown slots vis (chains first) with
  | none => rfl
  | some rid =>
      have hmem := (firstShown_some hfound).1
      rw [Option.bind_some, Option.bind_some, hsame rid hmem]

/-! ## The last version -/

/-- Where only versions without an end are shown, the last one is. -/
theorem Follows.firstShown_last {rids : List RID} {last : RID}
    (h : Follows slots first (rids ++ [last])) (hslot : slots last = some (header, values))
    (hlive : header.tMax = 0)
    (hvis : ∀ rid ∈ rids ++ [last], ∀ header values, slots rid = some (header, values) →
      vis header = decide (header.tMax = 0)) :
    firstShown slots vis (rids ++ [last]) = some last := by
  induction rids with
  | nil =>
      have hshown := hvis last (by simp) header values hslot
      rw [List.nil_append, firstShown, List.find?_cons, hslot, Option.any_some, hshown, hlive]
      rfl
  | cons rid rids ih =>
      rw [List.cons_append] at h
      obtain ⟨⟨header', values', hslot', _, hpoints⟩, hrest⟩ := h
      obtain ⟨next, hnext⟩ : ∃ next, (rids ++ [last]).head? = some next := by
        cases rids with
        | nil => exact ⟨last, rfl⟩
        | cons next rids => exact ⟨next, rfl⟩
      rw [hnext] at hpoints
      have hhidden := hvis rid (by simp) header' values' hslot'
      rw [decide_eq_false hpoints.1] at hhidden
      rw [List.cons_append, firstShown, List.find?_cons, hslot', Option.any_some, hhidden]
      exact ih hrest fun r hr => hvis r (List.mem_cons_of_mem _ hr)

/-- And the version that is shown is the last one. -/
theorem Chained.row_live (h : Chained slots chains)
    (hvis : ∀ rid ∈ chains first, ∀ header values, slots rid = some (header, values) →
      vis header = decide (header.tMax = 0))
    (hrow : chainRow slots vis chains first = some row) :
    ∃ rids last header values, chains first = rids ++ [last] ∧
      firstShown slots vis (chains first) = some last ∧ slots last = some (header, values) ∧
      header.first = first ∧ header.tMax = 0 ∧ header.next = last ∧
      row = (⟨values⟩ : Record).pushRid first := by
  obtain ⟨last, header, values, hshown, hmem, hslot, hfirst, htrue, hrec⟩ := h.row_some hrow
  have hlive : header.tMax = 0 := by
    rw [hvis last hmem header values hslot] at htrue
    exact of_decide_eq_true htrue
  have hchain := h.chain first (List.ne_nil_of_mem hmem)
  obtain ⟨hlast, hnext⟩ := hchain.follows.live_last hmem hslot hlive
  obtain ⟨rids, hrids⟩ := List.getLast?_eq_some_iff.mp hlast
  exact ⟨rids, last, header, values, hrids, hshown, hslot, hfirst, hlive, hnext, hrec⟩

/-! ## A new version -/

/-- The slots once `new` holds a version of the tuple `first` by `txId`, linked behind `last`. -/
def appendVersion (slots : SlotMap) (first last new : RID) (txId : TxID)
    (old : RecordHeader × List Value) (values : List Value) : SlotMap :=
  Function.update (Function.update slots new (some (⟨txId, 0, new, first⟩, values))) last
    (some ({ old.1 with tMax := txId, next := new }, old.2))

section Append

variable {last new : RID} {txId : TxID} {old : RecordHeader × List Value} {rids : List RID}
  {slots' : SlotMap}

theorem appendVersion_last :
    appendVersion slots first last new txId old values last =
      some ({ old.1 with tMax := txId, next := new }, old.2) := Function.update_self ..

theorem appendVersion_new (hne : new ≠ last) :
    appendVersion slots first last new txId old values new =
      some (⟨txId, 0, new, first⟩, values) := by
  rw [appendVersion, Function.update_of_ne hne, Function.update_self]

theorem appendVersion_of_ne (hlast : rid ≠ last) (hnew : rid ≠ new) :
    appendVersion slots first last new txId old values rid = slots rid := by
  rw [appendVersion, Function.update_of_ne hlast, Function.update_of_ne hnew]

theorem Follows.snoc (h : Follows slots first (rids ++ [last]))
    (hsame : ∀ rid ∈ rids, slots' rid = slots rid)
    (hlast : ∃ header values, slots' last = some (header, values) ∧ header.first = first ∧
      header.PointsTo last (some new))
    (hnew : ∃ header values, slots' new = some (header, values) ∧ header.first = first ∧
      header.PointsTo new none) :
    Follows slots' first (rids ++ [last] ++ [new]) := by
  induction rids with
  | nil => exact ⟨hlast, hnew, trivial⟩
  | cons rid rids ih =>
      obtain ⟨⟨header, values, hslot, hfirst, hpoints⟩, hrest⟩ := h
      refine ⟨⟨header, values, (hsame rid List.mem_cons_self).trans hslot, hfirst, ?_⟩,
        ih hrest fun r hr => hsame r (List.mem_cons_of_mem _ hr)⟩
      cases rids with
      | nil => exact hpoints
      | cons next rids => exact hpoints

variable (h : Chained slots chains) (hchain : chains first = rids ++ [last])
  (hold : slots last = some old) (hfree : slots new = none)

include h hchain hold hfree

/-- The other tuples have the versions they had. -/
theorem Chained.append_other {f : RID} (hne : f ≠ first) :
    ∀ rid ∈ chains f, appendVersion slots first last new txId old values rid = slots rid := by
  intro rid hmem
  obtain ⟨header, values', hslot, hfirst⟩ := h.slot hmem
  refine appendVersion_of_ne ?_ ?_
  · rintro rfl
    have hmem' : rid ∈ chains first := by
      rw [hchain]
      simp
    obtain ⟨header', values'', hslot', hfirst'⟩ := h.slot hmem'
    rw [hslot] at hslot'
    cases hslot'
    exact hne (hfirst.symm.trans hfirst')
  · rintro rfl
    rw [hslot] at hfree
    cases hfree

variable (values) in
theorem Chained.append (htx : txId ≠ 0) :
    Chained (appendVersion slots first last new txId old values)
      (Function.update chains first (chains first ++ [new])) := by
  have hne : new ≠ last := by
    rintro rfl
    rw [hfree] at hold
    cases hold
  have hmem : last ∈ chains first := by
    rw [hchain]
    simp
  have hfirst : old.1.first = first := by
    obtain ⟨header, values', hslot, hfirst⟩ := h.slot hmem
    rw [hold] at hslot
    cases hslot
    exact hfirst
  have htuple := h.chain first (List.ne_nil_of_mem hmem)
  have hnot : new ∉ chains first := by
    intro hnew
    obtain ⟨_, _, hslot, _⟩ := h.slot hnew
    rw [hfree] at hslot
    cases hslot
  refine ⟨fun f hf => ?_, fun rid header values' hslot => ?_⟩
  · by_cases hf' : f = first
    · subst hf'
      rw [Function.update_self]
      refine ⟨?_, ?_, ?_⟩
      · rw [List.head?_append, htuple.head]
        rfl
      · refine List.nodup_append.mpr ⟨htuple.nodup, List.nodup_singleton _, ?_⟩
        intro a ha b hb heq
        rw [List.mem_singleton.mp hb] at heq
        exact hnot (heq ▸ ha)
      · rw [hchain]
        have hrids : ∀ rid ∈ rids, rid ≠ last := by
          have hnodup := htuple.nodup
          rw [hchain] at hnodup
          exact fun rid hrid heq =>
            (List.nodup_append.mp hnodup).2.2 rid hrid last (List.mem_singleton_self _) heq
        refine (hchain ▸ htuple.follows).snoc (fun rid hrid => ?_) ?_ ?_
        · refine appendVersion_of_ne (hrids rid hrid) fun heq => hnot ?_
          rw [← heq, hchain]
          exact List.mem_append_left _ hrid
        · exact ⟨_, _, appendVersion_last, hfirst, htx, rfl⟩
        · exact ⟨_, _, appendVersion_new hne, rfl, .inl ⟨rfl, rfl⟩⟩
    · rw [Function.update_of_ne hf'] at hf ⊢
      have hother := h.chain f hf
      exact ⟨hother.head, hother.nodup,
        hother.follows.congr (h.append_other hchain hold hfree hf')⟩
  · by_cases hlast : rid = last
    · rw [hlast, appendVersion_last] at hslot
      cases hslot
      rw [hlast, hfirst, Function.update_self]
      exact List.mem_append_left _ hmem
    · by_cases hnew : rid = new
      · rw [hnew, appendVersion_new hne] at hslot
        cases hslot
        rw [hnew, Function.update_self]
        exact List.mem_append_right _ (List.mem_singleton_self _)
      · rw [appendVersion_of_ne hlast hnew] at hslot
        have hcover := h.cover rid header values' hslot
        by_cases hf : header.first = first
        · rw [hf] at hcover ⊢
          rw [Function.update_self]
          exact List.mem_append_left _ hcover
        · rwa [Function.update_of_ne hf]

end Append

end Reads

namespace HeapFile

variable {hf : HeapFile} {rid : RID} {header : RecordHeader} {values : List Value}

/-- What is stored has the types of the schema. -/
theorem Valid.matches_stored (hv : hf.Valid) (h : hf.slot rid = some (header, values)) :
    Matches hf.schema.columns values := by
  obtain ⟨n, i, rfl, hi⟩ := exists_nat_of_slot h
  obtain ⟨p, hp⟩ := hv.openPage_eq (hv.lt_pageCount hi)
  obtain ⟨sp, _, hcontents, _⟩ := (hv.openPage_ok hp).1
  rw [← hcontents] at hi
  obtain ⟨t, ht, _, rfl⟩ := SlottedPage.contents_live hi
  exact (sp.fits i t ht).values

/-- `get_last_version` walks to the end of a chain. -/
theorem Valid.getLastVersion_follows (hv : hf.Valid) {first last : RID} :
    ∀ (rids : List RID) (rid : RID) (fuel : Nat), Follows hf.slot first (rid :: rids) →
      (rid :: rids).getLast? = some last → rids.length + 1 ≤ fuel →
      hf.getLastVersion fuel rid = .ok (some last) := by
  intro rids
  induction rids with
  | nil =>
      intro rid fuel h hlast hfuel
      obtain ⟨⟨header, values, hslot, _, hend⟩, _⟩ := h
      obtain ⟨fuel, rfl⟩ := Nat.exists_eq_add_of_le' hfuel
      obtain rfl : rid = last := Option.some.inj hlast
      rw [List.length_nil, Nat.zero_add, hv.getLastVersion_succ hslot]
      rcases hend with ⟨hlive, _⟩ | ⟨hdead, hdel⟩
      · rw [if_pos hlive]
      · rw [if_neg hdead, if_pos hdel]
  | cons next rids ih =>
      intro rid fuel h hlast hfuel
      obtain ⟨⟨header, values, hslot, _, hdead, hnext⟩, hrest⟩ := h
      obtain ⟨fuel, rfl⟩ := Nat.exists_eq_add_of_le' hfuel
      have hgo : header.next ≠ .deleted := by
        intro hdel
        obtain ⟨_, _, hstored, _⟩ := hrest.1
        rw [← hnext, hdel] at hstored
        simp [slot, RID.deleted] at hstored
      rw [List.getLast?_cons_cons] at hlast
      rw [← Nat.add_assoc, hv.getLastVersion_succ hslot, if_neg hdead, if_neg hgo, hnext]
      exact ih next _ hrest hlast (by rw [List.length_cons]; omega)

end HeapFile

/-! ## Scans -/

section Scans

variable {tm : TransactionManager} {txId : TxID} {hf : HeapFile} {chains : RID → List RID}
  {vis : RecordHeader → Bool}

/-- A chain is no longer than the file. -/
theorem Chained.length_le (hv : hf.Valid) (h : Chained hf.slot chains) (first : RID) :
    (chains first).length ≤ hf.rids.length := by
  by_cases hne : chains first = []
  · rw [hne]
    exact Nat.zero_le _
  · refine (List.subperm_of_subset (h.chain first hne).nodup fun rid hrid => ?_).length_le
    obtain ⟨_, _, hslot, _⟩ := h.slot hrid
    exact hv.mem_rids hslot

/-- What `read` returns for a tuple. -/
theorem Chained.read_eq (hv : hf.Valid) (h : Chained hf.slot chains)
    (hvis : ∀ header, HeapFile.isVisible tm header txId = .ok (vis header)) {first : RID}
    (hne : chains first ≠ []) {fuel : Nat} (hfuel : 2 * hf.rids.length ≤ fuel) :
    ∃ r, hf.read tm fuel first txId =
        .ok (some ((firstShown hf.slot vis (chains first)).isSome, r)) ∧
      ∀ found, firstShown hf.slot vis (chains first) = some found → r = found := by
  have hchain := h.chain first hne
  have hlen := h.length_le hv first
  obtain ⟨rest, heq⟩ := List.head?_eq_some_iff.mp hchain.head
  rw [heq] at hlen ⊢
  rw [List.length_cons] at hlen
  exact readLoop_shown hv hvis rest first fuel (heq ▸ hchain.follows) (by omega)

/-- The iterator's visit to a slot: the row of the tuple that starts there. -/
theorem Chained.visit_eq (hv : hf.Valid) (h : Chained hf.slot chains)
    (hvis : ∀ header, HeapFile.isVisible tm header txId = .ok (vis header))
    (hvalues : ∀ rid header values, hf.slot rid = some (header, values) → values ≠ [])
    {fuel n i : Nat} (hfuel : 2 * hf.rids.length ≤ fuel) (hi : i < (hf.contentsOf n).length) :
    HeapFileIter.visit hf tm txId fuel ⟨n, i⟩ =
      .ok (some (HeapFileIter.Turn.ofRow (chainRow hf.slot vis chains ⟨n, i⟩))) := by
  obtain ⟨rid, hrid⟩ : ∃ rid : RID, rid = ⟨n, i⟩ := ⟨_, rfl⟩
  obtain ⟨slot, hcontents⟩ : ∃ slot, (hf.contentsOf n)[i]? = some slot :=
    ⟨_, List.getElem?_eq_getElem hi⟩
  have hslot : hf.slot rid = slot := by
    rw [hrid, HeapFile.slot_nat, hcontents]
    rfl
  -- where no tuple starts there is no row
  have hnone : (∀ header values, hf.slot rid = some (header, values) → header.first ≠ rid) →
      chainRow hf.slot vis chains rid = none := by
    intro hnot
    cases hrow : chainRow hf.slot vis chains rid with
    | none => rfl
    | some row =>
        obtain ⟨header, values, hstored, hfirst⟩ := h.row_stored hrow
        exact absurd hfirst (hnot header values hstored)
  cases slot with
  | none =>
      have hrow := hnone fun _ _ hstored => by
        rw [hslot] at hstored
        cases hstored
      rw [← hrid, hrow, hrid]
      simp only [HeapFileIter.visit, hv.getRecordHeader_dead hcontents, Outcome.ok_bind]
      rfl
  | some e =>
      obtain ⟨header, values⟩ := e
      have hheader := hv.getRecordHeader_eq hslot
      rw [← hrid]
      by_cases hfirst : rid = header.first
      · have hne : chains rid ≠ [] := by
          have hmem := h.cover rid header values hslot
          rw [← hfirst] at hmem
          exact List.ne_nil_of_mem hmem
        obtain ⟨r, hread, hfound⟩ := h.read_eq hv hvis hne hfuel
        simp only [HeapFileIter.visit, hheader, Outcome.ok_bind, if_pos hfirst, hread, chainRow]
        cases hshown : firstShown hf.slot vis (chains rid) with
        | none => rfl
        | some found =>
            obtain rfl := hfound found hshown
            obtain ⟨_, header', values', hstored, _⟩ := firstShown_some hshown
            have hvalid : (⟨values'⟩ : Record).invalid = false := by
              simpa [Record.invalid] using hvalues _ _ _ hstored
            simp only [Option.isSome_some, hv.getRecord_eq hstored, Outcome.ok_bind, hvalid,
              Bool.false_eq_true, if_false, ← hfirst, Option.bind_some, hstored, Option.map_some]
            rfl
      · rw [hnone fun _ _ hstored => by
          rw [hslot] at hstored
          cases hstored
          exact Ne.symm hfirst]
        simp only [HeapFileIter.visit, hheader, Outcome.ok_bind, if_neg hfirst]
        rfl

/-- A full scan returns the rows of the tuples, in file order. -/
theorem Chained.scan_eq (hv : hf.Valid) (h : Chained hf.slot chains)
    (hvis : ∀ header, HeapFile.isVisible tm header txId = .ok (vis header))
    (hvalues : ∀ rid header values, hf.slot rid = some (header, values) → values ≠ []) :
    ∃ it hf', HeapFileIter.create hf = .ok (it, hf') ∧
      ScansAs tm txId hf (hf'.rids.filterMap (chainRow hf.slot vis chains)) := by
  obtain ⟨it, hf', hcreate⟩ := HeapFileIter.create_eq hv
  obtain ⟨hv', _, hslot, _⟩ := HeapFileIter.create_ok hv hcreate
  obtain ⟨needed, hscan⟩ := HeapFileIter.scan_spec tm txId hv hcreate
    fun rid row hrow => h.row_valid hrow
  refine ⟨it, hf', hcreate, max needed (2 * hf'.rids.length), fun fuel hfuel =>
    hscan fuel (by omega) fun n i hi => ?_⟩
  rw [← hslot] at h hvalues ⊢
  exact h.visit_eq hv' hvis hvalues (by omega) hi

end Scans

end Iic3413Db.Storage
