/-
  Storage/HeapFile/VersionChains.lean --- the version chains of a heap file no
  transaction is working on, and what a new transaction reads of them.

  A chain is the list of the RIDs of a tuple's versions.  With every writer
  committed the live versions are those without an end, and `scan_rows` says that
  a scan shows their values, whatever the order of the slots.
-/
import Iic3413Db.Storage.HeapFile.HeapFileScan

set_option autoImplicit false

namespace Iic3413Db.Storage

open Iic3413Db.RelationalModel Iic3413Db.System HeapFilePage

/-- What is stored at each RID. -/
abbrev SlotMap : Type := RID → Option (RecordHeader × List Value)

/-- The header at `rid` of a version with a given next one.  The last version is
live and points to itself, or deleted. -/
def RecordHeader.PointsTo (header : RecordHeader) (rid : RID) : Option RID → Prop
  | none => header.tMax = 0 ∧ header.next = rid ∨ header.tMax ≠ 0 ∧ header.next = .deleted
  | some next => header.tMax ≠ 0 ∧ header.next = next

/-- The versions are stored, each pointing to the one after it. -/
def Follows (slots : SlotMap) (first : RID) : List RID → Prop
  | [] => True
  | rid :: rids =>
      (∃ header values, slots rid = some (header, values) ∧ header.first = first ∧
        header.PointsTo rid rids.head?) ∧ Follows slots first rids

/-- The chain of the tuple `first`. -/
structure VersionChain (slots : SlotMap) (first : RID) (rids : List RID) : Prop where
  head : rids.head? = some first
  nodup : rids.Nodup
  follows : Follows slots first rids

/-- Every stored version is in the chain that starts at its first RID. -/
def WellFormed (slots : SlotMap) : Prop :=
  ∀ rid header values, slots rid = some (header, values) →
    ∃ rids, VersionChain slots header.first rids ∧ rid ∈ rids

/-- The values of a version that a new transaction is to see.  A record without
values is the invalid one, which no scan returns. -/
def liveAt (slots : SlotMap) (rid : RID) : Option (List Value) :=
  (slots rid).bind fun e => if e.1.tMax = 0 ∧ e.2 ≠ [] then some e.2 else none

section Chains

variable {slots slots' : SlotMap} {first rid : RID} {rids : List RID} {header : RecordHeader}
  {values : List Value}

theorem Follows.slot (h : Follows slots first rids) (hmem : rid ∈ rids) :
    ∃ header values, slots rid = some (header, values) ∧ header.first = first := by
  induction rids with
  | nil => cases hmem
  | cons r rs ih =>
      rcases List.mem_cons.mp hmem with rfl | hmem
      · obtain ⟨header, values, hslot, hfirst, _⟩ := h.1
        exact ⟨header, values, hslot, hfirst⟩
      · exact ih h.2 hmem

theorem Follows.congr (h : Follows slots first rids)
    (hsame : ∀ rid ∈ rids, slots' rid = slots rid) : Follows slots' first rids := by
  induction rids with
  | nil => trivial
  | cons r rs ih =>
      obtain ⟨⟨header, values, hslot, hrest⟩, hfollows⟩ := h
      exact ⟨⟨header, values, (hsame r List.mem_cons_self).trans hslot, hrest⟩,
        ih hfollows fun rid hrid => hsame rid (List.mem_cons_of_mem _ hrid)⟩

/-- The slots say how a chain goes on. -/
theorem Follows.unique {as bs : List RID} (hdeleted : slots .deleted = none)
    (ha : Follows slots first (rid :: as)) (hb : Follows slots first (rid :: bs)) : as = bs := by
  induction as generalizing rid bs with
  | nil =>
      cases bs with
      | nil => rfl
      | cons b bs =>
          obtain ⟨⟨header, values, hslot, _, hend⟩, _⟩ := ha
          obtain ⟨⟨header', values', hslot', _, htMax, hnext⟩, hrest⟩ := hb
          rw [hslot] at hslot'
          cases hslot'
          rcases hend with ⟨hzero, _⟩ | ⟨_, hdel⟩
          · exact absurd hzero htMax
          · obtain ⟨_, _, hstored, _⟩ := hrest.1
            rw [← hnext, hdel, hdeleted] at hstored
            cases hstored
  | cons a as ih =>
      obtain ⟨⟨header, values, hslot, _, htMax, hnext⟩, harest⟩ := ha
      cases bs with
      | nil =>
          obtain ⟨⟨header', values', hslot', _, hend⟩, _⟩ := hb
          rw [hslot] at hslot'
          cases hslot'
          rcases hend with ⟨hzero, _⟩ | ⟨_, hdel⟩
          · exact absurd hzero htMax
          · obtain ⟨_, _, hstored, _⟩ := harest.1
            rw [← hnext, hdel, hdeleted] at hstored
            cases hstored
      | cons b bs =>
          obtain ⟨⟨header', values', hslot', _, _, hnext'⟩, hbrest⟩ := hb
          rw [hslot] at hslot'
          cases hslot'
          obtain rfl : a = b := hnext.symm.trans hnext'
          rw [ih harest hbrest]

theorem VersionChain.unique {as bs : List RID} (hdeleted : slots .deleted = none)
    (ha : VersionChain slots first as) (hb : VersionChain slots first bs) : as = bs := by
  obtain ⟨as', rfl⟩ := List.head?_eq_some_iff.mp ha.head
  obtain ⟨bs', rfl⟩ := List.head?_eq_some_iff.mp hb.head
  rw [ha.follows.unique hdeleted hb.follows]

/-- All versions of a tuple are in its chain. -/
theorem WellFormed.mem_chain (hw : WellFormed slots) (hdeleted : slots .deleted = none)
    (hslot : slots rid = some (header, values))
    (hchain : VersionChain slots header.first rids) : rid ∈ rids := by
  obtain ⟨rids', hchain', hmem⟩ := hw rid header values hslot
  rwa [hchain.unique hdeleted hchain']

/-- The first version of a stored tuple is stored. -/
theorem WellFormed.first_stored (hw : WellFormed slots)
    (hslot : slots rid = some (header, values)) :
    ∃ header' values', slots header.first = some (header', values') ∧
      header'.first = header.first := by
  obtain ⟨rids, hchain, _⟩ := hw rid header values hslot
  exact hchain.follows.slot (List.mem_of_head? hchain.head)

/-- The live version of a chain is its last one. -/
theorem Follows.live_last (h : Follows slots first rids) (hmem : rid ∈ rids)
    (hslot : slots rid = some (header, values)) (hlive : header.tMax = 0) :
    rids.getLast? = some rid ∧ header.next = rid := by
  induction rids with
  | nil => cases hmem
  | cons r rs ih =>
      obtain ⟨⟨header', values', hslot', _, hpoints⟩, hrest⟩ := h
      by_cases hrs : rs = []
      · subst hrs
        obtain rfl := List.mem_singleton.mp hmem
        rw [hslot] at hslot'
        cases hslot'
        rcases hpoints with ⟨_, hnext⟩ | ⟨hne, _⟩
        · exact ⟨rfl, hnext⟩
        · exact absurd hlive hne
      · rcases List.mem_cons.mp hmem with rfl | hmem
        · obtain ⟨next, rest, rfl⟩ := List.exists_cons_of_ne_nil hrs
          rw [hslot] at hslot'
          cases hslot'
          exact absurd hlive hpoints.1
        · obtain ⟨hlast, hnext⟩ := ih hrest hmem
          refine ⟨?_, hnext⟩
          rw [List.getLast?_cons, hlast]
          rfl

theorem liveAt_eq_some {vs : List Value} :
    liveAt slots rid = some vs ↔
      ∃ header, slots rid = some (header, vs) ∧ header.tMax = 0 ∧ vs ≠ [] := by
  unfold liveAt
  constructor
  · intro h
    obtain ⟨⟨header, values⟩, hslot, hif⟩ := Option.bind_eq_some_iff.mp h
    split at hif
    · rename_i hlive
      obtain rfl := Option.some.inj hif
      exact ⟨header, hslot, hlive⟩
    · cases hif
  · rintro ⟨header, hslot, hlive⟩
    rw [hslot, Option.bind_some, if_pos hlive]

end Chains

/-! ## Lists of positions -/

section Positions

variable {α β : Type}

theorem filterMap_filter_isSome (f : α → Option β) (l : List α) :
    (l.filter fun a => (f a).isSome).filterMap f = l.filterMap f := by
  rw [List.filterMap_filter]
  refine List.filterMap_congr fun a _ => ?_
  cases f a with
  | none => rfl
  | some b => rfl

/-- What is read off positions that lie in both lists does not depend on the
list. -/
theorem perm_filterMap {f : α → Option β} {l l' : List α} (hl : l.Nodup) (hl' : l'.Nodup)
    (hmem : ∀ a, (f a).isSome → (a ∈ l ↔ a ∈ l')) : (l.filterMap f).Perm (l'.filterMap f) := by
  rw [← filterMap_filter_isSome f l, ← filterMap_filter_isSome f l']
  refine List.Perm.filterMap f ?_
  refine (List.perm_ext_iff_of_nodup (hl.filter _) (hl'.filter _)).mpr fun a => ?_
  rw [List.mem_filter, List.mem_filter]
  exact and_congr_left fun hsome => hmem a hsome

end Positions

/-! ## Reading a chain -/

/-- The first version of a list that a reader is shown. -/
def firstShown (slots : SlotMap) (vis : RecordHeader → Bool) (rids : List RID) : Option RID :=
  rids.find? fun rid => (slots rid).any fun e => vis e.1

theorem firstShown_some {slots : SlotMap} {vis : RecordHeader → Bool} {rids : List RID} {rid : RID}
    (h : firstShown slots vis rids = some rid) :
    rid ∈ rids ∧ ∃ header values, slots rid = some (header, values) ∧ vis header = true := by
  have hshown := List.find?_some h
  cases hslot : slots rid with
  | none =>
      rw [hslot] at hshown
      cases hshown
  | some e =>
      rw [hslot] at hshown
      exact ⟨List.mem_of_find?_eq_some h, e.1, e.2, rfl, hshown⟩

section Read

variable {tm : TransactionManager} {txId : TxID} {hf : HeapFile} {vis : RecordHeader → Bool}
  {first : RID}

@[simp] theorem readLoop_done (fuel : Nat) (valid : Bool) (rid : RID) :
    hf.readLoop tm txId fuel (.done valid rid) = .ok (some (valid, rid)) := by
  cases fuel <;> rfl

/-- `read` from a version of a chain on stops at the first version that is shown. -/
theorem readLoop_shown (hv : hf.Valid)
    (hvis : ∀ header, HeapFile.isVisible tm header txId = .ok (vis header)) :
    ∀ (rids : List RID) (rid : RID) (fuel : Nat), Follows hf.slot first (rid :: rids) →
    2 * (rids.length + 1) ≤ fuel →
    ∃ r, hf.readLoop tm txId fuel (.fetch rid) =
        .ok (some ((firstShown hf.slot vis (rid :: rids)).isSome, r)) ∧
      ∀ found, firstShown hf.slot vis (rid :: rids) = some found → r = found := by
  intro rids
  induction rids with
  | nil =>
      intro rid fuel h hfuel
      obtain ⟨⟨header, values, hslot, _, hend⟩, _⟩ := h
      obtain ⟨fuel, rfl⟩ : ∃ m, fuel = m + 2 := ⟨fuel - 2, by simp at hfuel; omega⟩
      simp only [HeapFile.readLoop, HeapFile.readStep, hv.getRecordHeader_eq hslot,
        Outcome.ok_bind, hvis, firstShown, List.find?_cons, hslot, Option.any_some, List.find?_nil]
      cases hshown : vis header with
      | true => exact ⟨rid, by simp, fun found hfound => Option.some.inj hfound⟩
      | false =>
          rcases hend with ⟨hlive, hnext⟩ | ⟨_, hdel⟩
          · by_cases hdel : header.next = .deleted
            · exact ⟨.deleted, by simp [hdel], fun found hfound => nomatch hfound⟩
            · exact ⟨header.next, by simp [hdel, hlive], fun found hfound => nomatch hfound⟩
          · exact ⟨.deleted, by simp [hdel], fun found hfound => nomatch hfound⟩
  | cons next rids ih =>
      intro rid fuel h hfuel
      obtain ⟨⟨header, values, hslot, _, hdead, hnext⟩, hrest⟩ := h
      obtain ⟨fuel, rfl⟩ : ∃ m, fuel = m + 2 := ⟨fuel - 2, by simp at hfuel; omega⟩
      have hgo : header.next ≠ .deleted := by
        intro hdel
        obtain ⟨_, _, hstored, _⟩ := hrest.1
        rw [← hnext, hdel] at hstored
        simp [HeapFile.slot, RID.deleted] at hstored
      obtain ⟨r, hread, hfound⟩ := ih next fuel hrest (by simp at hfuel ⊢; omega)
      rw [firstShown, List.find?_cons, hslot, Option.any_some]
      simp only [HeapFile.readLoop, HeapFile.readStep, hv.getRecordHeader_eq hslot,
        Outcome.ok_bind, hvis]
      cases hshown : vis header with
      | true => exact ⟨rid, by simp, fun found hfound => Option.some.inj hfound⟩
      | false =>
          refine ⟨r, ?_, hfound⟩
          rw [if_neg (by decide), if_neg hgo, if_neg hdead, hnext]
          exact hread

end Read

/-! ## A new transaction -/

/-- No transaction has begun and not ended. -/
def Idle (tm : TransactionManager) : Prop := ∀ txId, tm.activeTransactions txId = none

/-- `rows` is what a transaction that begins now reads in a full scan, in order and
without the RIDs. -/
def Scans (tm : TransactionManager) (hf : HeapFile) (rows : List (List Value)) : Prop :=
  ∃ records : List Record, records.map Record.stored = rows ∧ ∃ needed, ∀ fuel, needed ≤ fuel →
    HeapFileIter.scan hf (tm.startTransaction .readCommitted).2
      (tm.startTransaction .readCommitted).1 fuel = .ok (some records)

section Scan

variable {tm : TransactionManager} {hf : HeapFile}

theorem Scans.unique {rows rows' : List (List Value)} (h : Scans tm hf rows)
    (h' : Scans tm hf rows') : rows = rows' := by
  obtain ⟨records, rfl, needed, hscan⟩ := h
  obtain ⟨records', rfl, needed', hscan'⟩ := h'
  have heq := (hscan _ (Nat.le_max_left needed needed')).symm.trans
    (hscan' _ (Nat.le_max_right needed needed'))
  rw [Option.some.inj (Except.ok.inj heq)]

/-- With all writers committed, the versions to see are those without an end. -/
theorem Idle.isVisible (hidle : Idle tm) (header : RecordHeader) :
    HeapFile.isVisible (tm.startTransaction .readCommitted).2 header
      (tm.startTransaction .readCommitted).1 = .ok (decide (header.tMax = 0)) := by
  obtain ⟨txId, htxId⟩ : ∃ txId, tm.transactionCount = txId := ⟨_, rfl⟩
  have hstate : ∀ x, (tm.startTransaction .readCommitted).2.getState x =
      if x = txId then .active else .committed := by
    intro x
    unfold TransactionManager.startTransaction TransactionManager.getState
    rw [htxId]
    by_cases hx : x = txId
    · simp [hx]
    · simp [hx, hidle x]
  have hlevel : (tm.startTransaction .readCommitted).2.getIsolationLevel txId =
      .ok .readCommitted := by
    simp [TransactionManager.startTransaction, TransactionManager.getIsolationLevel, htxId]
  have hself : (tm.startTransaction .readCommitted).1 = txId := htxId
  rw [hself]
  simp only [HeapFile.isVisible, TransactionManager.getStates, hstate, hlevel, Outcome.ok_bind]
  by_cases hmin : header.tMin = txId
  · simp [hmin]
  · by_cases hend : header.tMax = 0
    · simp [hmin, hend]
    · by_cases hmax : header.tMax = txId
      · simp only [if_neg hmin, if_neg hend, if_pos hmax, decide_eq_false hend]
        simp [hmax]
      · simp [hmin, hmax, hend]

section Walk

variable (hv : hf.Valid) (hidle : Idle tm)

include hv hidle

/-- `read` from a version of a chain on stops at the live one, if there is one. -/
theorem readLoop_follows {first : RID} : ∀ (rids : List RID) (rid : RID) (fuel : Nat),
    Follows hf.slot first (rid :: rids) → 2 * (rids.length + 1) ≤ fuel →
    (∃ r ∈ rid :: rids, (∃ header values, hf.slot r = some (header, values) ∧ header.tMax = 0) ∧
      hf.readLoop (tm.startTransaction .readCommitted).2 (tm.startTransaction .readCommitted).1
        fuel (.fetch rid) = .ok (some (true, r))) ∨
    (∀ r ∈ rid :: rids, ∀ header values, hf.slot r = some (header, values) → header.tMax ≠ 0) ∧
      ∃ r, hf.readLoop (tm.startTransaction .readCommitted).2
        (tm.startTransaction .readCommitted).1 fuel (.fetch rid) = .ok (some (false, r)) := by
  intro rids rid fuel h hfuel
  obtain ⟨r, hread, hfound⟩ := readLoop_shown hv hidle.isVisible rids rid fuel h hfuel
  cases hshown : firstShown hf.slot (fun header => decide (header.tMax = 0)) (rid :: rids) with
  | some found =>
      rw [hshown] at hread
      obtain ⟨hmem, header, values, hslot, hlive⟩ := firstShown_some hshown
      obtain rfl := hfound found hshown
      exact .inl ⟨r, hmem, ⟨header, values, hslot, of_decide_eq_true hlive⟩, hread⟩
  | none =>
      rw [hshown] at hread
      refine .inr ⟨fun r' hr' header values hslot hlive => ?_, r, hread⟩
      have hnot := List.find?_eq_none.mp hshown r' hr'
      rw [hslot, Option.any_some] at hnot
      exact hnot (decide_eq_true hlive)

end Walk

/-- The values of the live versions, in file order. -/
def HeapFile.liveRows (hf : HeapFile) : List (List Value) := hf.rids.filterMap (liveAt hf.slot)

/-- `live` finds the live version of the tuple that starts at a RID, if its record
has values. -/
def Finds (slots : SlotMap) (live : RID → Option RID) : Prop :=
  ∀ first rid, live first = some rid ↔ ∃ header values, slots rid = some (header, values) ∧
    header.first = first ∧ header.tMax = 0 ∧ values ≠ []

theorem WellFormed.exists_finds {slots : SlotMap} (hw : WellFormed slots)
    (hdeleted : slots .deleted = none) : ∃ live, Finds slots live := by
  have hone : ∀ first, ∃ found : Option RID, ∀ rid, found = some rid ↔
      ∃ header values, slots rid = some (header, values) ∧ header.first = first ∧
        header.tMax = 0 ∧ values ≠ [] := by
    intro first
    by_cases hex : ∃ rid header values, slots rid = some (header, values) ∧
        header.first = first ∧ header.tMax = 0 ∧ values ≠ []
    · obtain ⟨rid, header, values, hslot, rfl, hlive, hne⟩ := hex
      refine ⟨some rid, fun r => ⟨?_, ?_⟩⟩
      · rintro ⟨⟩
        exact ⟨header, values, hslot, rfl, hlive, hne⟩
      · -- both end the chain
        rintro ⟨header', values', hslot', hfirst, hlive', _⟩
        obtain ⟨rids, hchain, hmem⟩ := hw rid header values hslot
        have hmem' : r ∈ rids := hw.mem_chain hdeleted hslot' (hfirst ▸ hchain)
        obtain ⟨hlast, _⟩ := hchain.follows.live_last hmem hslot hlive
        obtain ⟨hlast', _⟩ := hchain.follows.live_last hmem' hslot' hlive'
        exact hlast.symm.trans hlast'
    · refine ⟨none, fun rid => ⟨(fun h => nomatch h), ?_⟩⟩
      rintro ⟨header, values, h⟩
      exact absurd ⟨rid, header, values, h⟩ hex
  choose live hfinds using hone
  exact ⟨live, hfinds⟩

/-- The row of the tuple that starts at `first`. -/
def rowAt (slots : SlotMap) (live : RID → Option RID) (first : RID) : Option Record :=
  (live first).bind fun rid => (liveAt slots rid).map fun vs => (⟨vs⟩ : Record).pushRid first

section Rows

variable {live : RID → Option RID}

theorem Finds.row_none {slots : SlotMap} (hfinds : Finds slots live) {first : RID}
    (hnone : ∀ rid header values, slots rid = some (header, values) → header.first = first →
      header.tMax = 0 → values = []) : rowAt slots live first = none := by
  unfold rowAt
  cases hlive : live first with
  | none => rfl
  | some rid =>
      obtain ⟨header, values, hslot, hfirst, hzero, hne⟩ := (hfinds first rid).mp hlive
      exact absurd (hnone rid header values hslot hfirst hzero) hne

/-- Where no tuple starts there is no row. -/
theorem Finds.row_of_not_first {slots : SlotMap} (hfinds : Finds slots live)
    (hw : WellFormed slots) {first : RID}
    (hnot : ∀ header values, slots first = some (header, values) → header.first ≠ first) :
    rowAt slots live first = none := by
  refine hfinds.row_none fun rid header values hslot hfirst _ => ?_
  obtain ⟨header', values', hslot', hfirst'⟩ := hw.first_stored hslot
  rw [hfirst] at hslot' hfirst'
  exact absurd hfirst' (hnot header' values' hslot')

variable (hv : hf.Valid) (hidle : Idle tm) (hw : WellFormed hf.slot)
  (hfinds : Finds hf.slot live)

include hv hidle hw hfinds

/-- The iterator's visit to a slot: the row of the tuple that starts there. -/
theorem visit_chain {fuel n i : Nat} (hfuel : 2 * hf.rids.length ≤ fuel)
    (hi : i < (hf.contentsOf n).length) :
    HeapFileIter.visit hf (tm.startTransaction .readCommitted).2
      (tm.startTransaction .readCommitted).1 fuel ⟨n, i⟩ =
      .ok (some (HeapFileIter.Turn.ofRow (rowAt hf.slot live ⟨n, i⟩))) := by
  obtain ⟨rid, hrid⟩ : ∃ rid : RID, rid = ⟨n, i⟩ := ⟨_, rfl⟩
  obtain ⟨slot, hcontents⟩ : ∃ slot, (hf.contentsOf n)[i]? = some slot :=
    ⟨_, List.getElem?_eq_getElem hi⟩
  have hslot : hf.slot rid = slot := by
    rw [hrid, HeapFile.slot_nat, hcontents]
    rfl
  cases slot with
  | none =>
      have hrow : rowAt hf.slot live rid = none := hfinds.row_of_not_first hw fun header values h => by
        rw [hslot] at h
        cases h
      rw [← hrid, hrow, hrid]
      simp only [HeapFileIter.visit, hv.getRecordHeader_dead hcontents, Outcome.ok_bind]
      rfl
  | some e =>
      obtain ⟨header, values⟩ := e
      have hheader := hv.getRecordHeader_eq hslot
      rw [← hrid]
      by_cases hfirst : rid = header.first
      · obtain ⟨rids, hchain, hmem⟩ := hw rid header values hslot
        obtain ⟨rest, rfl⟩ := List.head?_eq_some_iff.mp hchain.head
        have hall : ∀ r header' values', hf.slot r = some (header', values') →
            header'.first = rid → r ∈ header.first :: rest := by
          intro r header' values' h h'
          rw [hfirst] at h'
          exact hw.mem_chain rfl h (h' ▸ hchain)
        have hlen : (header.first :: rest).length ≤ hf.rids.length := by
          refine (List.subperm_of_subset hchain.nodup fun r hr => ?_).length_le
          obtain ⟨header', values', hstored, _⟩ := hchain.follows.slot hr
          exact hv.mem_rids hstored
        rw [List.length_cons] at hlen
        rcases readLoop_follows hv hidle rest header.first fuel hchain.follows (by omega) with
          ⟨r, hr, ⟨header', values', hstored, hlive⟩, hread⟩ | ⟨hnone, r, hread⟩
        · rw [← hfirst] at hread
          simp only [HeapFileIter.visit, hheader, Outcome.ok_bind, if_pos hfirst, HeapFile.read,
            hread, hv.getRecord_eq hstored]
          obtain ⟨header'', values'', hstored', hfirst'⟩ := hchain.follows.slot hr
          rw [hstored] at hstored'
          cases hstored'
          by_cases hvalues : values' = []
          · -- the invalid record
            have hrow : rowAt hf.slot live rid = none := hfinds.row_none fun r' h' vs hr' hf' hz' => by
              obtain ⟨hlast, _⟩ := hchain.follows.live_last hr hstored hlive
              obtain ⟨hlast', _⟩ := hchain.follows.live_last (hall r' h' vs hr' hf') hr' hz'
              obtain rfl : r = r' := Option.some.inj (hlast.symm.trans hlast')
              rw [hstored] at hr'
              cases hr'
              exact hvalues
            rw [hrow, hvalues]
            rfl
          · have hfound : live rid = some r :=
              (hfinds rid r).mpr ⟨header', values', hstored, hfirst'.trans hfirst.symm, hlive,
                hvalues⟩
            have hat : liveAt hf.slot r = some values' :=
              liveAt_eq_some.mpr ⟨header', hstored, hlive, hvalues⟩
            have hvalid : (⟨values'⟩ : Record).invalid = false := by
              simpa [Record.invalid] using hvalues
            simp only [hvalid, Bool.false_eq_true, if_false, rowAt, hfound, Option.bind_some, hat,
              Option.map_some, ← hfirst]
            rfl
        · rw [← hfirst] at hread
          have hrow : rowAt hf.slot live rid = none := hfinds.row_none fun r' h' vs hr' hf' hz' =>
            absurd hz' (hnone r' (hall r' h' vs hr' hf') h' vs hr')
          simp only [HeapFileIter.visit, hheader, Outcome.ok_bind, if_pos hfirst, HeapFile.read,
            hread, hrow]
          rfl
      · have hrow : rowAt hf.slot live rid = none := hfinds.row_of_not_first hw fun _ _ h h' => by
          rw [hslot] at h
          cases h
          exact hfirst h'.symm
        rw [hrow]
        simp only [HeapFileIter.visit, hheader, Outcome.ok_bind, if_neg hfirst]
        rfl

end Rows

/-- Taking the rows of the tuples in the order of their first slots, or the live
versions in the order of their own. -/
theorem rows_perm {live : RID → Option RID} (hv : hf.Valid) (hfinds : Finds hf.slot live)
    (hw : WellFormed hf.slot) :
    ((hf.rids.filterMap (rowAt hf.slot live)).map Record.stored).Perm
      (hf.liveRows.map fun vs => Record.stored ⟨vs⟩) := by
  have hleft : (hf.rids.filterMap (rowAt hf.slot live)).map Record.stored =
      (hf.rids.filterMap live).filterMap fun rid =>
        (liveAt hf.slot rid).map fun vs => Record.stored ⟨vs⟩ := by
    rw [List.map_filterMap, List.filterMap_filterMap]
    refine List.filterMap_congr fun first _ => ?_
    unfold rowAt
    rw [Option.map_bind]
    refine congrArg (Option.bind (live first)) (funext fun rid => ?_)
    rw [Function.comp_apply, Option.map_map]
    refine congrArg (fun f => Option.map f (liveAt hf.slot rid)) (funext fun vs => ?_)
    simp [Record.stored, Record.pushRid, Value.isRid]
  have hright : (hf.liveRows.map fun vs => Record.stored ⟨vs⟩) =
      hf.rids.filterMap fun rid => (liveAt hf.slot rid).map fun vs => Record.stored ⟨vs⟩ := by
    rw [HeapFile.liveRows, List.map_filterMap]
  rw [hleft, hright]
  refine perm_filterMap ?_ HeapFile.nodup_rids fun rid hsome => ?_
  · refine HeapFile.nodup_rids.filterMap fun first first' rid h h' => ?_
    obtain ⟨header, values, hslot, rfl, _⟩ := (hfinds first rid).mp h
    obtain ⟨header', values', hslot', rfl, _⟩ := (hfinds first' rid).mp h'
    rw [hslot] at hslot'
    cases hslot'
    rfl
  · rw [Option.isSome_map] at hsome
    obtain ⟨vs, hvs⟩ := Option.isSome_iff_exists.mp hsome
    obtain ⟨header, hslot, hlive⟩ := liveAt_eq_some.mp hvs
    refine iff_of_true ?_ (hv.mem_rids hslot)
    obtain ⟨header', values', hslot', _⟩ := hw.first_stored hslot
    exact List.mem_filterMap.mpr ⟨header.first, hv.mem_rids hslot',
      (hfinds header.first rid).mpr ⟨header, vs, hslot, rfl, hlive⟩⟩

/-- A scan by a new transaction returns the values of the live versions. -/
theorem scan_rows (hv : hf.Valid) (hidle : Idle tm) (hw : WellFormed hf.slot) :
    ∃ rows, Scans tm hf rows ∧ rows.Perm (hf.liveRows.map fun vs => Record.stored ⟨vs⟩) := by
  obtain ⟨it, hf', hcreate⟩ := HeapFileIter.create_eq hv
  obtain ⟨hv', _, hslot, _⟩ := HeapFileIter.create_ok hv hcreate
  obtain ⟨live, hfinds⟩ : ∃ live, Finds hf.slot live := hw.exists_finds rfl
  have hvalid : ∀ rid r, rowAt hf.slot live rid = some r → r.invalid = false := by
    intro rid r hr
    obtain ⟨rid', _, hmap⟩ := Option.bind_eq_some_iff.mp hr
    obtain ⟨vs, _, rfl⟩ := Option.map_eq_some_iff.mp hmap
    simp [Record.invalid, Record.pushRid]
  obtain ⟨needed, hscan⟩ := HeapFileIter.scan_spec
    (tm.startTransaction .readCommitted).2 (tm.startTransaction .readCommitted).1 hv hcreate hvalid
  have hw' : WellFormed hf'.slot := by
    rw [hslot]
    exact hw
  have hfinds' : Finds hf'.slot live := by
    rw [hslot]
    exact hfinds
  refine ⟨(hf'.rids.filterMap (rowAt hf.slot live)).map Record.stored, ⟨_, rfl,
    max needed (2 * hf'.rids.length), fun fuel hfuel => hscan fuel (by omega) fun n i hi => ?_⟩, ?_⟩
  · rw [← hslot]
    exact visit_chain hv' hidle hw' hfinds' (by omega) hi
  · rw [← hslot]
    refine (rows_perm hv' hfinds' hw').trans (List.Perm.map _ ?_)
    -- opening page 0 stores nothing
    rw [HeapFile.liveRows, HeapFile.liveRows, hslot]
    refine perm_filterMap HeapFile.nodup_rids HeapFile.nodup_rids fun rid hsome => ?_
    obtain ⟨vs, hvs⟩ := Option.isSome_iff_exists.mp hsome
    obtain ⟨header, hstored, _⟩ := liveAt_eq_some.mp hvs
    have hstored' : hf'.slot rid = some (header, vs) := by
      rw [hslot]
      exact hstored
    exact iff_of_true (hv'.mem_rids hstored') (hv.mem_rids hstored)

end Scan

end Iic3413Db.Storage
