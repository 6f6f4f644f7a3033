/-
  Mvcc/ReachableViews.lean --- what a transaction sees at the states of `database`.

  The chains of the invariant, by their RIDs, make such a state a `View` of each READ_COMMITTED
  transaction, as long as no other session is between storing a version and linking it.
-/
import Iic3413Db.Mvcc.Steps
import Iic3413Db.Mvcc.TableViews

set_option autoImplicit false

namespace Iic3413Db.Mvcc

open Iic3413Db.Foundation Iic3413Db.RelationalModel Iic3413Db.Storage Iic3413Db.System
  Iic3413Db.Query

section Reachable

variable {t : TableSchema} {db : Database} {g : Chains} {txId : TxID}

/-- The version at a RID, and those around it. -/
theorem Invariant.split (h : Invariant t db g) (hlinked : ∀ rid, ¬ Pending db rid) {rid : RID}
    {header : RecordHeader} {values : List Value} (hslot : db.slot rid = some (header, values)) :
    ∃ us v vs, g header.first = us ++ v :: vs ∧ v.rid = rid ∧
      header = v.header header.first vs.head? := by
  obtain ⟨v, hv, hrid⟩ := (h.cover rid header values hslot).resolve_right (hlinked rid)
  obtain ⟨us, vs, hsplit⟩ := List.append_of_mem hv
  have hstored := (h.chains header.first (List.ne_nil_of_mem hv)).linked
  rw [hsplit] at hstored
  have hat := hstored.at
  rw [hrid, hslot] at hat
  exact ⟨us, v, vs, hsplit, hrid, (Prod.mk.inj (Option.some.inj hat)).1⟩

theorem Linked.follows {slots : Slots} {first : RID} {vs : List Version}
    (h : Linked slots first vs) (hwriters : ∀ v ∈ vs, v.writer ≠ 0) :
    Follows slots first (vs.map Version.rid) := by
  induction vs with
  | nil => trivial
  | cons v vs ih =>
      refine ⟨⟨_, _, h.1, Version.header_first _, ?_⟩,
        ih h.2 fun w hw => hwriters w (List.mem_cons_of_mem _ hw)⟩
      cases vs with
      | nil => exact .inl ⟨rfl, rfl⟩
      | cons w vs => exact ⟨hwriters w (by simp), rfl⟩

theorem Invariant.chained (h : Invariant t db g) (hlinked : ∀ rid, ¬ Pending db rid) :
    Chained db.slot fun first => (g first).map Version.rid := by
  refine ⟨fun first hne => ?_, fun rid header values hslot => ?_⟩
  · have hversions := h.chains first fun hnil => hne (by rw [hnil]; rfl)
    refine ⟨?_, h.nodup first, hversions.linked.follows hversions.writers⟩
    rw [List.head?_map]
    exact hversions.head
  · obtain ⟨us, v, vs, hsplit, rfl, _⟩ := h.split hlinked hslot
    rw [hsplit]
    simp

/-- The writers of a version are those of versions of its tuple. -/
theorem Invariant.written (h : Invariant t db g) (hlinked : ∀ rid, ¬ Pending db rid) {rid : RID}
    {header : RecordHeader} {values : List Value} {x : TxID}
    (hslot : db.slot rid = some (header, values)) (hwritten : WrittenBy header x) :
    x = 0 ∨ ∃ v ∈ g header.first, v.writer = x := by
  obtain ⟨us, v, vs, hsplit, _, hheader⟩ := h.split hlinked hslot
  rw [hheader] at hwritten
  rw [hsplit]
  cases vs with
  | nil =>
      rcases hwritten with rfl | rfl
      · exact .inr ⟨v, by simp, rfl⟩
      · exact .inl rfl
  | cons w vs =>
      rcases hwritten with rfl | rfl
      · exact .inr ⟨v, by simp, rfl⟩
      · exact .inr ⟨w, by simp, rfl⟩

theorem Ordered.one {state : TxID → TransactionState} {vs : List Version} (h : Ordered state vs)
    {v w : Version} (hv : v ∈ vs) (hw : w ∈ vs) (hvactive : state v.writer = .active)
    (hwactive : state w.writer = .active) : v.writer = w.writer := by
  obtain ⟨us, ws, rfl⟩ := List.append_of_mem hv
  obtain ⟨_, hafter, hbefore⟩ := List.pairwise_append.mp h
  rcases List.mem_append.mp hw with hw | hw
  · exact hbefore w hw v List.mem_cons_self hwactive
  · rcases List.mem_cons.mp hw with rfl | hw
    · rfl
    · exact ((List.pairwise_cons.mp hafter).1 w hw hvactive).symm

theorem Invariant.view (h : Invariant t db g) (hlinked : ∀ rid, ¬ Pending db rid)
    (hruns : db.transactions.Runs txId .readCommitted) (it : HeapFileIter) :
    View t (fun x => x < db.transactions.transactionCount) txId
      ⟨db.heapFile, db.transactions, db.lockTable, it, []⟩
      fun first => (g first).map Version.rid := by
  have hzero : db.state 0 ≠ .active := by
    intro hactive
    exact Nat.lt_irrefl 0 (h.known_of_active hactive).1
  refine ⟨h.valid, h.schema, hruns, h.chained hlinked, ?_, ?_, hzero, ?_, ?_, ?_⟩
  · obtain ⟨hpos, hlt⟩ := h.known_of_active hruns.active
    exact ⟨hpos, hlt.trans h.count.2⟩
  · intro rid header values x hslot hwritten
    rcases h.written hlinked hslot hwritten with hx | ⟨v, hv, rfl⟩
    · exact .inl hx
    · exact .inr (.inr (h.writers _ v hv))
  · intro rid header values rid' header' values' x x' hslot hslot' hfirst hx hx' hactive hactive'
    rcases h.written hlinked hslot hx with rfl | ⟨v, hv, rfl⟩
    · exact absurd hactive hzero
    · rcases h.written hlinked hslot' hx' with rfl | ⟨w, hw, rfl⟩
      · exact absurd hactive' hzero
      · rw [← hfirst] at hw
        exact (h.ordered header.first).one hv hw hactive hactive'
  · intro rid header values hslot _ hactive hended
    obtain ⟨us, v, vs, hsplit, _, hheader⟩ := h.split hlinked hslot
    rw [hheader] at hactive hended ⊢
    have hordered := h.ordered header.first
    rw [hsplit] at hordered
    cases vs with
    | nil => exact absurd rfl hended
    | cons w vs =>
        have hafter := (List.pairwise_append.mp hordered).2.1
        exact (List.pairwise_cons.mp hafter).1 w List.mem_cons_self hactive
  · intro rid header values x hslot _ hactive hcase
    obtain ⟨us, v, vs, hsplit, rfl, hheader⟩ := h.split hlinked hslot
    have hlocked := h.locked header.first
    rw [hsplit] at hlocked
    rcases hcase with rfl | ⟨rfl, hne⟩
    · rw [hheader] at hactive ⊢
      cases vs with
      | nil => exact absurd hactive hzero
      | cons w vs =>
          refine hlocked w ?_ hactive
          cases us <;> simp
    · cases us with
      | nil =>
          have hhead := (h.chains header.first (by simp [hsplit])).head
          rw [hsplit] at hhead
          exact absurd (Option.some.inj hhead) hne
      | cons u us =>
          have hmin : header.tMin = v.writer := by
            rw [hheader]
            exact Version.header_tMin _
          rw [hmin] at hactive ⊢
          exact hlocked v (by simp) hactive

theorem reachable_view (hreach : (database t).Reachable db) (hlinked : ∀ rid, ¬ Pending db rid)
    (hruns : db.transactions.Runs txId .readCommitted) (it : HeapFileIter) :
    ∃ chains, View t (fun x => x < db.transactions.transactionCount) txId
      ⟨db.heapFile, db.transactions, db.lockTable, it, []⟩ chains := by
  obtain ⟨g, hinvariant⟩ := reachable_invariant hreach
  exact ⟨_, hinvariant.view hlinked hruns it⟩

end Reachable

end Iic3413Db.Mvcc
