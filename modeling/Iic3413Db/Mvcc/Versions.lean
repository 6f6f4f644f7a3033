/-
  Mvcc/Versions.lean --- the version chain of a tuple, and what a reader should
  see of it.

  A tuple is a list of versions, oldest first; in the heap file each version's
  header carries its writer as `t_min` and the next version's writer and RID as
  `t_max` and `next`.  `expected` says which version a READ_COMMITTED transaction
  is to see: its own newest, else the newest committed one.  `seen` is the walk
  of `read` over the list, and the two agree on chains whose uncommitted versions
  are at the end and by one writer.
-/
import Iic3413Db.Storage.HeapFile.HeapFileSlots

set_option autoImplicit false

namespace Iic3413Db.Mvcc

open Iic3413Db.RelationalModel Iic3413Db.Storage Iic3413Db.System

/-- A version of a tuple: where it is stored, who wrote it, and its values. -/
structure Version where
  rid : RID
  writer : TxID
  values : List Value
  deriving DecidableEq, Repr

/-- What is stored at each RID. -/
abbrev Slots : Type := RID → Option (RecordHeader × List Value)

/-! ## Chains -/

/-- The header of a version of the tuple `first`, given the next version. -/
def Version.header (first : RID) (v : Version) : Option Version → RecordHeader
  | none => ⟨v.writer, 0, v.rid, first⟩
  | some w => ⟨v.writer, w.writer, w.rid, first⟩

/-- The versions are stored, each header pointing to the next version. -/
def Linked (slots : Slots) (first : RID) : List Version → Prop
  | [] => True
  | v :: vs => slots v.rid = some (v.header first vs.head?, v.values) ∧ Linked slots first vs

/-- `vs` is the version chain of the tuple `first`. -/
structure Versions (slots : Slots) (first : RID) (vs : List Version) : Prop where
  head : vs.head?.map Version.rid = some first
  writers : ∀ v ∈ vs, v.writer ≠ 0
  linked : Linked slots first vs

section Chains

variable {slots slots' : Slots} {first : RID} {vs : List Version} {v w : Version}

@[simp] theorem Version.header_first (next : Option Version) : (v.header first next).first = first := by
  cases next <;> rfl

@[simp] theorem Version.header_tMin (next : Option Version) :
    (v.header first next).tMin = v.writer := by
  cases next <;> rfl

/-- Every version of a chain is stored, under the chain's first RID. -/
theorem Linked.slot (h : Linked slots first vs) (hv : v ∈ vs) :
    ∃ next, slots v.rid = some (v.header first next, v.values) := by
  induction vs with
  | nil => cases hv
  | cons u us ih =>
      rcases List.mem_cons.mp hv with rfl | hmem
      · exact ⟨_, h.1⟩
      · exact ih h.2 hmem

/-- The header of a version inside a chain points to the next one. -/
theorem Linked.at {us : List Version} (h : Linked slots first (us ++ v :: vs)) :
    slots v.rid = some (v.header first vs.head?, v.values) := by
  induction us with
  | nil => exact h.1
  | cons u us ih => exact ih h.2

/-- A chain depends on its own slots only. -/
theorem Linked.congr (h : Linked slots first vs)
    (hsame : ∀ v ∈ vs, slots' v.rid = slots v.rid) : Linked slots' first vs := by
  induction vs with
  | nil => trivial
  | cons u us ih =>
      exact ⟨(hsame u List.mem_cons_self).trans h.1,
        ih h.2 fun v hv => hsame v (List.mem_cons_of_mem _ hv)⟩

/-- The last version of a chain has no end and points to itself. -/
theorem Linked.last (h : Linked slots first (vs ++ [v])) :
    slots v.rid = some (v.header first none, v.values) := h.at

/-- Linking a version behind the last one. -/
theorem Linked.snoc (h : Linked slots first (vs ++ [v]))
    (hsame : ∀ u ∈ vs, slots' u.rid = slots u.rid)
    (hlast : slots' v.rid = some (v.header first (some w), v.values))
    (hnew : slots' w.rid = some (w.header first none, w.values)) :
    Linked slots' first (vs ++ [v] ++ [w]) := by
  induction vs with
  | nil => exact ⟨hlast, hnew, trivial⟩
  | cons u us ih =>
      refine ⟨?_, ih h.2 fun x hx => hsame x (List.mem_cons_of_mem _ hx)⟩
      rw [hsame u List.mem_cons_self, h.1]
      -- the version after `u` is the same one
      cases us <;> rfl

/-- The slots determine the chain from its first version on. -/
theorem Linked.unique {ws : List Version} (h : Linked slots first vs) (h' : Linked slots first ws)
    (hvs : ∀ v ∈ vs, v.writer ≠ 0) (hws : ∀ w ∈ ws, w.writer ≠ 0)
    (hhead : vs.head?.map Version.rid = ws.head?.map Version.rid) : vs = ws := by
  induction vs generalizing ws with
  | nil =>
      cases ws with
      | nil => rfl
      | cons w ws => simp at hhead
  | cons v vs ih =>
      cases ws with
      | nil => simp at hhead
      | cons w ws =>
          simp only [List.head?_cons, Option.map_some, Option.some.injEq] at hhead
          obtain ⟨hv, hvs'⟩ := h
          obtain ⟨hw, hws'⟩ := h'
          rw [hhead, hw] at hv
          simp only [Option.some.injEq, Prod.mk.injEq] at hv
          obtain ⟨hheader, hvalues⟩ := hv
          have hwriter : v.writer = w.writer := by
            have h := congrArg RecordHeader.tMin hheader
            simpa using h.symm
          have hvw : v = w := by
            cases v
            cases w
            simp_all
          -- both go on, to the same RID, or both end
          have hnext : vs.head?.map Version.rid = ws.head?.map Version.rid := by
            cases vs with
            | nil =>
                cases ws with
                | nil => rfl
                | cons w' ws' =>
                    have h := congrArg RecordHeader.tMax hheader
                    simp only [List.head?_cons, Version.header, List.head?_nil] at h
                    exact absurd h (hws w' (by simp))
            | cons v' vs' =>
                cases ws with
                | nil =>
                    have h := congrArg RecordHeader.tMax hheader
                    simp only [List.head?_cons, Version.header, List.head?_nil] at h
                    exact absurd h.symm (hvs v' (by simp))
                | cons w' ws' =>
                    have h := congrArg RecordHeader.next hheader
                    simp only [List.head?_cons, Version.header] at h
                    simpa using h.symm
          rw [hvw, ih hvs' hws' (fun u hu => hvs u (List.mem_cons_of_mem _ hu))
            (fun u hu => hws u (List.mem_cons_of_mem _ hu)) hnext]

theorem Versions.congr (h : Versions slots first vs)
    (hsame : ∀ v ∈ vs, slots' v.rid = slots v.rid) : Versions slots' first vs :=
  ⟨h.head, h.writers, h.linked.congr hsame⟩

theorem Versions.unique {ws : List Version} (h : Versions slots first vs)
    (h' : Versions slots first ws) : vs = ws :=
  h.linked.unique h'.linked h.writers h'.writers (h.head.trans h'.head.symm)

theorem Versions.ne_nil (h : Versions slots first vs) : vs ≠ [] := by
  rintro rfl
  cases h.head

end Chains

/-! ## What a reader is to see -/

/-- The newest version with a property. -/
def newest (p : Version → Bool) (vs : List Version) : Option Version := (vs.filter p).getLast?

/-- What `txId` is to see of a tuple under READ_COMMITTED: the newest version it
wrote itself, otherwise the newest committed one. -/
def expected (state : TxID → TransactionState) (txId : TxID) (vs : List Version) :
    Option Version :=
  match newest (fun v => decide (v.writer = txId)) vs with
  | some v => some v
  | none => newest (fun v => decide (state v.writer = .committed)) vs

/-- Nothing follows an uncommitted version but versions of the same writer. -/
def Ordered (state : TxID → TransactionState) (vs : List Version) : Prop :=
  vs.Pairwise fun v w => state v.writer = .active → w.writer = v.writer

/-- `is_visible`, of a version with a given next one. -/
def visible (state : TxID → TransactionState) (txId : TxID) (v : Version) :
    Option Version → Bool
  | none => decide (state v.writer = .active → v.writer = txId)
  | some w => decide (state v.writer = .committed ∧ state w.writer = .active ∧ w.writer ≠ txId)

/-- The version `read` stops at. -/
def seen (state : TxID → TransactionState) (txId : TxID) : List Version → Option Version
  | [] => none
  | v :: vs => if visible state txId v vs.head? then some v else seen state txId vs

section Expected

variable {state : TxID → TransactionState} {txId : TxID}

theorem state_cases (s : TransactionState) : s = .active ∨ s = .committed := by
  cases s <;> simp

theorem newest_cons_of_some {p : Version → Bool} {v u : Version} {vs : List Version}
    (h : newest p vs = some u) : newest p (v :: vs) = some u := by
  unfold newest at *
  rw [List.filter_cons]
  split
  · rw [List.getLast?_cons, h]
    rfl
  · exact h

theorem newest_cons_of_none {p : Version → Bool} {v : Version} {vs : List Version}
    (h : newest p vs = none) : newest p (v :: vs) = if p v then some v else none := by
  unfold newest at *
  rw [List.filter_cons]
  split
  · rw [List.getLast?_cons, h]
    rfl
  · exact h

theorem newest_eq_none {p : Version → Bool} {vs : List Version} :
    newest p vs = none ↔ ∀ v ∈ vs, p v = false := by
  simp [newest]

theorem newest_mem {p : Version → Bool} {v : Version} {vs : List Version}
    (h : newest p vs = some v) : v ∈ vs ∧ p v = true := by
  have hmem := List.mem_of_getLast? h
  exact List.mem_filter.mp hmem

/-- The walk stops at the version the reader is to see. -/
theorem seen_eq_expected {vs : List Version} (htx : state txId = .active)
    (hord : Ordered state vs) : seen state txId vs = expected state txId vs := by
  induction vs with
  | nil => rfl
  | cons v vs ih =>
      obtain ⟨hv, hord'⟩ := List.pairwise_cons.mp hord
      have ih := ih hord'
      -- a version of the reader is not committed
      have hmine : ∀ u : Version, u.writer = txId → state u.writer ≠ .committed := by
        intro u hu hcommitted
        rw [hu, htx] at hcommitted
        cases hcommitted
      cases vs with
      | nil =>
          rcases state_cases (state v.writer) with hs | hs
          · by_cases hw : v.writer = txId
            · simp [seen, visible, expected, newest, hw]
            · simp [seen, visible, expected, newest, hs, hw]
          · have hw : v.writer ≠ txId := fun hw => hmine v hw hs
            simp [seen, visible, expected, newest, hs, hw]
      | cons w ws =>
          obtain ⟨hw, _⟩ := List.pairwise_cons.mp hord'
          by_cases hvis : state v.writer = .committed ∧ state w.writer = .active ∧ w.writer ≠ txId
          · -- everything after `v` is by the other active writer
            obtain ⟨hcommitted, hactive, hother⟩ := hvis
            have hall : ∀ u ∈ w :: ws, u.writer = w.writer := by
              intro u hu
              rcases List.mem_cons.mp hu with rfl | hu
              · rfl
              · exact hw u hu hactive
            have hnot : v.writer ≠ txId := fun h => hmine v h hcommitted
            have hown : newest (fun u => decide (u.writer = txId)) (w :: ws) = none := by
              refine newest_eq_none.mpr fun u hu => ?_
              rw [hall u hu]
              exact decide_eq_false hother
            have hcom : newest (fun u => decide (state u.writer = .committed)) (w :: ws) = none := by
              refine newest_eq_none.mpr fun u hu => ?_
              rw [hall u hu, hactive]
              rfl
            have hseen : seen state txId (v :: w :: ws) = some v := by
              simp [seen, visible, hcommitted, hactive, hother]
            rw [hseen, expected, newest_cons_of_none hown, newest_cons_of_none hcom]
            simp [hnot, hcommitted]
          · have hseen : seen state txId (v :: w :: ws) = seen state txId (w :: ws) := by
              simp only [seen, visible, List.head?_cons, decide_eq_true_eq, if_neg hvis]
            rw [hseen, ih, expected, expected]
            cases hown : newest (fun u => decide (u.writer = txId)) (w :: ws) with
            | some u => rw [newest_cons_of_some hown]
            | none =>
                have hw_not : w.writer ≠ txId := by
                  simpa using newest_eq_none.mp hown w List.mem_cons_self
                rw [newest_cons_of_none hown]
                rcases state_cases (state v.writer) with hs | hs
                · -- an uncommitted `v` heads a chain of its own writer
                  have hsame : ∀ u ∈ w :: ws, u.writer = v.writer := fun u hu => hv u hu hs
                  have hv_not : v.writer ≠ txId := by
                    rw [← hsame w List.mem_cons_self]
                    exact hw_not
                  have hcom : newest (fun u => decide (state u.writer = .committed))
                      (w :: ws) = none := by
                    refine newest_eq_none.mpr fun u hu => ?_
                    rw [hsame u hu, hs]
                    rfl
                  rw [hcom, newest_cons_of_none hcom]
                  simp [hv_not, hs]
                · -- `w` is committed, so it hides `v`
                  have hw_com : state w.writer = .committed := by
                    rcases state_cases (state w.writer) with h | h
                    · exact absurd ⟨hs, h, hw_not⟩ hvis
                    · exact h
                  have hv_not : v.writer ≠ txId := fun h => hmine v h hs
                  cases hcom : newest (fun u => decide (state u.writer = .committed)) (w :: ws) with
                  | none =>
                      have h := newest_eq_none.mp hcom w List.mem_cons_self
                      simp [hw_com] at h
                  | some u =>
                      rw [newest_cons_of_some hcom]
                      simp [hv_not]

/-- A tuple is seen exactly when its inserter is the reader or has committed. -/
theorem expected_isSome {v : Version} {vs : List Version} (hord : Ordered state (v :: vs)) :
    (expected state txId (v :: vs)).isSome ↔ v.writer = txId ∨ state v.writer = .committed := by
  constructor
  · intro hsome
    by_contra hnone
    push Not at hnone
    obtain ⟨hother, hnot⟩ := hnone
    have hactive : state v.writer = .active := (state_cases _).resolve_right hnot
    have hall : ∀ u ∈ v :: vs, u.writer = v.writer := by
      intro u hu
      rcases List.mem_cons.mp hu with rfl | hu
      · rfl
      · exact (List.pairwise_cons.mp hord).1 u hu hactive
    have hown : newest (fun u => decide (u.writer = txId)) (v :: vs) = none := by
      refine newest_eq_none.mpr fun u hu => ?_
      rw [hall u hu]
      exact decide_eq_false hother
    have hcom : newest (fun u => decide (state u.writer = .committed)) (v :: vs) = none := by
      refine newest_eq_none.mpr fun u hu => ?_
      rw [hall u hu, hactive]
      rfl
    rw [expected, hown, hcom] at hsome
    cases hsome
  · intro h
    unfold expected
    cases hown : newest (fun u => decide (u.writer = txId)) (v :: vs) with
    | some u => rfl
    | none =>
        cases hcom : newest (fun u => decide (state u.writer = .committed)) (v :: vs) with
        | some u => rfl
        | none =>
            have hno := newest_eq_none.mp hown v List.mem_cons_self
            have hno' := newest_eq_none.mp hcom v List.mem_cons_self
            rcases h with h | h
            · simp [h] at hno
            · simp [h] at hno'

theorem expected_mem {v : Version} {vs : List Version} (h : expected state txId vs = some v) :
    v ∈ vs := by
  unfold expected at h
  split at h
  · rename_i u hu
    cases h
    exact (newest_mem hu).1
  · exact (newest_mem h).1

end Expected

/-! ## The walks of the heap file -/

section Walks

variable {hf : HeapFile} {tm : TransactionManager} {txId : TxID} {first : RID}

/-- `is_visible` on the header of a version in a chain. -/
theorem isVisible_header (first : RID) (hrun : tm.Runs txId .readCommitted) (v : Version)
    (next : Option Version) (hnext : ∀ w, next = some w → w.writer ≠ 0) :
    HeapFile.isVisible tm (v.header first next) txId = .ok (visible tm.getState txId v next) := by
  cases next with
  | none =>
      simp only [HeapFile.isVisible, TransactionManager.getStates, hrun.isolationLevel,
        Outcome.ok_bind, Version.header, visible]
      cases tm.getState v.writer <;> simp
  | some w =>
      have hw := hnext w rfl
      simp only [HeapFile.isVisible, TransactionManager.getStates, hrun.isolationLevel,
        Outcome.ok_bind, Version.header, visible]
      cases tm.getState v.writer <;> cases tm.getState w.writer <;> simp [hw]
      -- both committed and active: the verdict is on `w`'s writer
      rcases eq_or_ne w.writer txId with hmine | hother
      · simp [hmine]
      · simp [hother]

/-- A stored version is not at the RID that marks a deleted tuple. -/
theorem ne_deleted {rid : RID} {e : RecordHeader × List Value} (h : hf.slot rid = some e) :
    rid ≠ .deleted := by
  obtain ⟨n, i, rfl, _⟩ := HeapFile.exists_nat_of_slot h
  simp [RID.deleted]

/-- Two steps of `read` from a version: its header, and its verdict. -/
theorem readLoop_version (hv : hf.Valid) (hrun : tm.Runs txId .readCommitted) {v : Version}
    {vs : List Version} (hlinked : Linked hf.slot first (v :: vs))
    (hwriters : ∀ w ∈ v :: vs, w.writer ≠ 0) (fuel : Nat) :
    hf.readLoop tm txId (fuel + 2) (.fetch v.rid) =
      if visible tm.getState txId v vs.head? then .ok (some (true, v.rid))
      else match vs with
        | [] => .ok (some (false, v.rid))
        | w :: _ => hf.readLoop tm txId fuel (.fetch w.rid) := by
  have hheader := hv.getRecordHeader_eq hlinked.1
  have hvis := isVisible_header first hrun v vs.head? (by
    intro w hw
    exact hwriters w (List.mem_cons_of_mem _ (List.mem_of_head? hw)))
  simp only [HeapFile.readLoop, HeapFile.readStep, hheader, Outcome.ok_bind, hvis]
  cases hsee : visible tm.getState txId v vs.head? with
  | true => simp [HeapFile.readLoop]
  | false =>
      cases vs with
      | nil =>
          have hne : v.rid ≠ .deleted := ne_deleted hlinked.1
          simp [Version.header, hne, HeapFile.readLoop]
      | cons w ws =>
          have hne : w.rid ≠ .deleted := ne_deleted hlinked.2.1
          have hw : w.writer ≠ 0 := hwriters w (by simp)
          simp [Version.header, hne, hw]

/-- `read` along a chain comes back with the version it should, or with nothing
to see, after two steps a version. -/
theorem readLoop_chain (hv : hf.Valid) (hrun : tm.Runs txId .readCommitted) :
    ∀ (vs : List Version) (v : Version) (fuel : Nat), Linked hf.slot first (v :: vs) →
      (∀ w ∈ v :: vs, w.writer ≠ 0) → 2 * (vs.length + 1) ≤ fuel →
      ∃ rid, hf.readLoop tm txId fuel (.fetch v.rid) =
          .ok (some ((seen tm.getState txId (v :: vs)).isSome, rid)) ∧
        ∀ u, seen tm.getState txId (v :: vs) = some u → rid = u.rid := by
  intro vs
  induction vs with
  | nil =>
      intro v fuel hlinked hwriters hfuel
      obtain ⟨fuel, rfl⟩ := Nat.exists_eq_add_of_le' (show 2 ≤ fuel by simpa using hfuel)
      rw [readLoop_version hv hrun hlinked hwriters, seen]
      refine ⟨v.rid, ?_⟩
      cases visible tm.getState txId v ([] : List Version).head? with
      | true => exact ⟨rfl, fun u hu => by cases hu; rfl⟩
      | false => exact ⟨rfl, fun u hu => by cases hu⟩
  | cons w ws ih =>
      intro v fuel hlinked hwriters hfuel
      simp only [List.length_cons] at hfuel
      obtain ⟨fuel, rfl⟩ := Nat.exists_eq_add_of_le' (show 2 ≤ fuel by omega)
      rw [readLoop_version hv hrun hlinked hwriters, seen]
      cases visible tm.getState txId v (w :: ws).head? with
      | true => exact ⟨v.rid, rfl, fun u hu => by cases hu; rfl⟩
      | false =>
          exact ih w fuel hlinked.2 (fun u hu => hwriters u (List.mem_cons_of_mem _ hu)) (by omega)

/-- `get_last_version` along a chain reaches the last version. -/
theorem getLastVersion_chain (hv : hf.Valid) :
    ∀ (vs : List Version) (v : Version) (fuel : Nat), Linked hf.slot first (v :: vs) →
      (∀ w ∈ v :: vs, w.writer ≠ 0) → vs.length + 1 ≤ fuel →
      hf.getLastVersion fuel v.rid = .ok (some ((v :: vs).getLast (by simp)).rid) := by
  intro vs
  induction vs with
  | nil =>
      intro v fuel hlinked _ hfuel
      obtain ⟨fuel, rfl⟩ := Nat.exists_eq_add_of_le' (show 1 ≤ fuel by simpa using hfuel)
      rw [hv.getLastVersion_succ hlinked.1]
      simp [Version.header]
  | cons w ws ih =>
      intro v fuel hlinked hwriters hfuel
      simp only [List.length_cons] at hfuel
      obtain ⟨fuel, rfl⟩ := Nat.exists_eq_add_of_le' (show 1 ≤ fuel by omega)
      have hne : (v.header first (w :: ws).head?).next ≠ .deleted := ne_deleted hlinked.2.1
      have hw : (v.header first (w :: ws).head?).tMax ≠ 0 := hwriters w (by simp)
      rw [hv.getLastVersion_succ hlinked.1, if_neg hw, if_neg hne]
      show hf.getLastVersion fuel w.rid = _
      rw [ih w fuel hlinked.2 (fun u hu => hwriters u (List.mem_cons_of_mem _ hu)) (by omega)]
      simp

end Walks

end Iic3413Db.Mvcc
