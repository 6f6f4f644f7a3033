/-
  Mvcc/Reader.lean --- a READ_COMMITTED `read` among running writers.

  The reader takes the steps of `read` one at a time, while other transactions do
  theirs.  Between the header it holds and the states it asks for, a writer may
  append, link, commit, release and be erased; the reader still stands on a
  version whose writer has committed, and the header it holds is either the
  current one or that of a version that was the newest committed one when it was
  read.
-/
import Iic3413Db.Mvcc.Scan

set_option autoImplicit false

namespace Iic3413Db.Mvcc

open Iic3413Db.Foundation Iic3413Db.RelationalModel Iic3413Db.Storage Iic3413Db.System
  Iic3413Db.Query

/-- A step of the reader, or of another transaction. -/
inductive ReadLabel where
  | read
  | other (txId : TxID) (action : Action)

def ReadLabel.isRead : ReadLabel → Bool
  | .read => true
  | .other _ _ => false

/-- The `read` is not back yet. -/
def Running : HeapFile.ReadState → Prop
  | .done _ _ => False
  | .fetch _ | .judge _ _ => True

/-- Transaction `reader` reads; the others do what they do. -/
inductive ReadingStep (t : TableSchema) (reader : TxID) :
    Database × HeapFile.ReadState → ReadLabel → Database × HeapFile.ReadState → Prop
  | read {db : Database} {s s' : HeapFile.ReadState} (hs : Running s)
      (h : db.heapFile.readStep db.transactions reader s = .ok s') :
      ReadingStep t reader (db, s) .read (db, s')
  | other {db db' : Database} {s : HeapFile.ReadState} {txId : TxID} {action : Action}
      (hx : txId ≠ reader) (h : Step t db (txId, action) db') :
      ReadingStep t reader (db, s) (.other txId action) (db', s)

/-- A `read` that starts in `start`. -/
def reading (t : TableSchema) (reader : TxID) (start : Database) (first : RID) :
    Machine (Database × HeapFile.ReadState) ReadLabel where
  init s := s = (start, .fetch first)
  step := ReadingStep t reader

/-- The version at `rid` is the newest committed one of the tuple. -/
def NewestCommitted (db : Database) (first rid : RID) : Prop :=
  ∃ vs u, Versions db.slot first vs ∧
    newest (fun v => decide (db.state v.writer = .committed)) vs = some u ∧ u.rid = rid

section Reading

variable {t : TableSchema} {reader : TxID} {start : Database} {first : RID}

/-- In some state of the run, the version at `rid` was the newest committed one. -/
def WasNewest (t : TableSchema) (reader : TxID) (start : Database) (first : RID)
    (ls : List ReadLabel) (s : Database × HeapFile.ReadState) (rid : RID) : Prop :=
  ∃ ls₁ ls₂ m, ls = ls₁ ++ ls₂ ∧
    (reading t reader start first).Run (start, .fetch first) ls₁ m ∧
    (reading t reader start first).Run m ls₂ s ∧ NewestCommitted m.1 first rid

theorem WasNewest.now {ls : List ReadLabel} {s : Database × HeapFile.ReadState} {rid : RID}
    (hrun : (reading t reader start first).Run (start, .fetch first) ls s)
    (h : NewestCommitted s.1 first rid) : WasNewest t reader start first ls s rid :=
  ⟨ls, [], s, (List.append_nil ls).symm, hrun, .nil, h⟩

theorem WasNewest.later {ls : List ReadLabel} {l : ReadLabel}
    {s s' : Database × HeapFile.ReadState} {rid : RID}
    (h : WasNewest t reader start first ls s rid) (hstep : ReadingStep t reader s l s') :
    WasNewest t reader start first (ls ++ [l]) s' rid := by
  obtain ⟨ls₁, ls₂, m, rfl, hbefore, hafter, hnewest⟩ := h
  exact ⟨ls₁, ls₂ ++ [l], m, List.append_assoc .., hbefore, .snoc hafter hstep, hnewest⟩

/-- The reader stands on version `v` of the chain `us ++ v :: ws`, whose writer has
committed. -/
structure On (db : Database) (g : Chains) (first rid : RID) (us : List Version) (v : Version)
    (ws : List Version) : Prop where
  chain : g first = us ++ v :: ws
  rid : v.rid = rid
  committed : db.state v.writer = .committed

/-- What the reader has at each point, `n` steps into its `read`: the version it
stands on, and a header of it that is current, or `was` the last one of what was
committed. -/
def ReaderOk (db : Database) (g : Chains) (first : RID) (n : Nat) (was : RID → Prop) :
    HeapFile.ReadState → Prop
  | .fetch rid => ∃ us v ws, On db g first rid us v ws ∧ n ≤ 2 * us.length
  | .judge rid header => ∃ us v ws, On db g first rid us v ws ∧ n ≤ 2 * us.length + 1 ∧
      (header = v.header first none ∧ was rid ∨
        ∃ w ws', ws = w :: ws' ∧ header = v.header first (some w))
  | .done valid rid => valid = true ∧ was rid ∧ n ≤ 2 * (g first).length

/-- The invariant of a run with the reader. -/
structure Reads (t : TableSchema) (reader : TxID) (db : Database) (g : Chains) (first : RID) : Prop
    where
  invariant : Invariant t db g
  runs : db.transactions.Runs reader .readCommitted
  tuple : g first ≠ []
  unwritten : ∀ v ∈ g first, v.writer ≠ reader

variable {db db' : Database} {g g' : Chains} {n : Nat} {was was' : RID → Prop}
  {s s' : HeapFile.ReadState}

/-- A committed version with nothing after it, or only uncommitted ones, is the
newest committed one. -/
theorem Reads.newestCommitted (h : Reads t reader db g first) {rid : RID}
    {us ws : List Version} {v : Version} (hon : On db g first rid us v ws)
    (hws : ∀ w ∈ ws, db.state w.writer = .active) : NewestCommitted db first rid := by
  refine ⟨g first, v, h.invariant.chains first h.tuple, ?_, hon.rid⟩
  have hnone : ws.filter (fun w => decide (db.state w.writer = .committed)) = [] := by
    refine List.filter_eq_nil_iff.mpr fun w hw => ?_
    rw [hws w hw]
    simp
  rw [newest, hon.chain, List.filter_append, List.filter_cons_of_pos (by simp [hon.committed]),
    hnone]
  simp

theorem ReaderOk.mono (hwas : ∀ rid, was rid → was' rid) (h : ReaderOk db g first n was s) :
    ReaderOk db g first n was' s := by
  cases s with
  | fetch rid => exact h
  | judge rid header =>
      obtain ⟨us, v, ws, hon, hn, hheader⟩ := h
      exact ⟨us, v, ws, hon, hn, hheader.imp_left fun hlast => ⟨hlast.1, hwas rid hlast.2⟩⟩
  | done valid rid => exact ⟨h.1, hwas rid h.2.1, h.2.2⟩

/-! ## A step of another transaction -/

theorem Reads.other (h : Reads t reader db g first) {txId : TxID} {action : Action}
    (hx : txId ≠ reader) (hstep : Step t db (txId, action) db') :
    ∃ g', Reads t reader db' g' first ∧ ∃ us, g' first = g first ++ us := by
  obtain ⟨g', hinv, hext⟩ := h.invariant.step hstep
  obtain ⟨us, hus, hwriters⟩ := hext first
  refine ⟨g', ⟨hinv, h.runs.congr (hstep.entries (Ne.symm hx)), ?_, ?_⟩, us, hus⟩
  · rw [hus]
    exact List.append_ne_nil_of_left_ne_nil h.tuple us
  · intro v hv
    rw [hus] at hv
    rcases List.mem_append.mp hv with hv | hv
    · exact h.unwritten v hv
    · rw [hwriters v hv]
      exact hx

/-- The chain the reader walks has grown behind it. -/
theorem ReaderOk.other (h : Reads t reader db g first) {txId : TxID} {action : Action}
    (hstep : Step t db (txId, action) db') {more : List Version}
    (hmore : g' first = g first ++ more) (hok : ReaderOk db g first n was s) :
    ReaderOk db' g' first n was s := by
  have hon : ∀ {rid : RID} {us ws : List Version} {v : Version}, On db g first rid us v ws →
      On db' g' first rid us v (ws ++ more) := by
    intro rid us ws v hon
    have hv : v ∈ g first := by
      rw [hon.chain]
      simp
    refine ⟨?_, hon.rid, hstep.committed (h.invariant.writers first v hv) hon.committed⟩
    rw [hmore, hon.chain, List.append_assoc, List.cons_append]
  cases s with
  | fetch rid =>
      obtain ⟨us, v, ws, hat, hn⟩ := hok
      exact ⟨us, v, ws ++ more, hon hat, hn⟩
  | judge rid header =>
      obtain ⟨us, v, ws, hat, hn, hheader⟩ := hok
      refine ⟨us, v, ws ++ more, hon hat, hn, ?_⟩
      rcases hheader with hlast | ⟨w, ws', rfl, hheader⟩
      · exact .inl hlast
      · exact .inr ⟨w, ws' ++ more, rfl, hheader⟩
  | done valid rid =>
      obtain ⟨hvalid, hnewest, hn⟩ := hok
      refine ⟨hvalid, hnewest, ?_⟩
      rw [hmore, List.length_append]
      omega

/-! ## A step of the reader -/

/-- The reader's next step: it happens, and it leaves the reader where it should
be.  `was` holds of every version that is the newest committed one now. -/
theorem ReaderOk.read (h : Reads t reader db g first)
    (hwas : ∀ rid, NewestCommitted db first rid → was rid) (hs : Running s)
    (hok : ReaderOk db g first n was s) :
    ∃ s', db.heapFile.readStep db.transactions reader s = .ok s' ∧
      ReaderOk db g first (n + 1) was s' := by
  have hchain := h.invariant.chains first h.tuple
  cases s with
  | done valid rid => exact absurd hs not_false
  | fetch rid =>
      obtain ⟨us, v, ws, hon, hn⟩ := hok
      -- the header of `v` at this moment
      have hslot : db.heapFile.slot rid = some (v.header first ws.head?, v.values) := by
        have hlinked := hchain.linked
        rw [hon.chain] at hlinked
        rw [← hon.rid]
        exact hlinked.at
      refine ⟨.judge rid (v.header first ws.head?), ?_, us, v, ws, hon, by omega, ?_⟩
      · simp only [HeapFile.readStep, h.invariant.valid.getRecordHeader_eq hslot, Outcome.ok_bind]
      · cases ws with
        | nil =>
            exact .inl ⟨rfl, hwas rid (h.newestCommitted hon fun w hw => absurd hw List.not_mem_nil)⟩
        | cons w ws' => exact .inr ⟨w, ws', rfl, rfl⟩
  | judge rid header =>
      obtain ⟨us, v, ws, hon, hn, hheader⟩ := hok
      have hlen : us.length + 1 ≤ (g first).length := by
        rw [hon.chain, List.length_append, List.length_cons]
        omega
      rcases hheader with ⟨rfl, hnewest⟩ | ⟨w, ws', rfl, rfl⟩
      · -- it was the last version when its header was read
        have hvis : HeapFile.isVisible db.transactions (v.header first none) reader = .ok true := by
          rw [isVisible_header first h.runs v none (by simp)]
          have hcommitted : db.transactions.getState v.writer = .committed := hon.committed
          simp [visible, hcommitted]
        refine ⟨.done true rid, ?_, rfl, hnewest, by omega⟩
        simp only [HeapFile.readStep, hvis, Outcome.ok_bind, if_true]
      · have hw_mem : w ∈ g first := by
          rw [hon.chain]
          simp
        have hw_other := h.unwritten w hw_mem
        have hw_zero := hchain.writers w hw_mem
        have hvis := isVisible_header first h.runs v (some w) (by simpa using hw_zero)
        have hcommitted : db.transactions.getState v.writer = .committed := hon.committed
        rcases state_cases (db.state w.writer) with hactive | hdone
        · -- the next version is not committed, and so are those after it
          have hafter : ∀ u ∈ w :: ws', db.state u.writer = .active := by
            have hord := h.invariant.ordered first
            rw [hon.chain] at hord
            obtain ⟨_, hord, _⟩ := List.pairwise_append.mp hord
            obtain ⟨hw, _⟩ := List.pairwise_cons.mp (List.pairwise_cons.mp hord).2
            intro u hu
            rcases List.mem_cons.mp hu with rfl | hu
            · exact hactive
            · rw [hw u hu hactive]
              exact hactive
          have hsee : visible db.transactions.getState reader v (some w) = true := by
            have hactive : db.transactions.getState w.writer = .active := hactive
            simp [visible, hcommitted, hactive, hw_other]
          refine ⟨.done true rid, ?_, rfl, hwas rid (h.newestCommitted hon hafter), by omega⟩
          rw [hsee] at hvis
          simp only [HeapFile.readStep, hvis, Outcome.ok_bind, if_true]
        · -- the next version is committed: on to it
          have hsee : visible db.transactions.getState reader v (some w) = false := by
            have hdone : db.transactions.getState w.writer = .committed := hdone
            simp [visible, hdone]
          obtain ⟨next, hw_slot⟩ := hchain.linked.slot hw_mem
          have hw_slot : db.heapFile.slot w.rid = some (w.header first next, w.values) := hw_slot
          have hne : (v.header first (some w)).next ≠ .deleted := ne_deleted hw_slot
          have hmax : (v.header first (some w)).tMax ≠ 0 := hw_zero
          refine ⟨.fetch w.rid, ?_, us ++ [v], w, ws', ⟨?_, rfl, hdone⟩, ?_⟩
          · rw [hsee] at hvis
            simp only [HeapFile.readStep, hvis, Outcome.ok_bind, Bool.false_eq_true, if_false]
            rw [if_neg hne, if_neg hmax]
            rfl
          · rw [hon.chain, List.append_assoc]
            rfl
          · rw [List.length_append, List.length_singleton]
            omega

/-! ## The whole read -/

/-- At every point of a run, the reader is where it should be. -/
theorem readerOk_run (hreach : (database t).Reachable start)
    (hruns : start.transactions.Runs reader .readCommitted) {v : Version} {vs : List Version}
    (hvs : Versions start.slot first (v :: vs)) (hv : start.state v.writer = .committed)
    (hother : ∀ u ∈ v :: vs, u.writer ≠ reader) {ls : List ReadLabel}
    {e : Database × HeapFile.ReadState}
    (hrun : (reading t reader start first).Run (start, .fetch first) ls e) :
    ∃ g, Reads t reader e.1 g first ∧
      ReaderOk e.1 g first (ls.countP ReadLabel.isRead) (WasNewest t reader start first ls e)
        e.2 := by
  induction hrun with
  | nil =>
      obtain ⟨g, hinv⟩ := reachable_invariant hreach
      have hg := hinv.chain_eq hvs
      obtain ⟨_, _, heq, hrid⟩ := hvs.exists_cons
      cases heq
      refine ⟨g, ⟨hinv, hruns, ?_, ?_⟩, [], v, vs, ⟨hg, hrid, hv⟩, Nat.zero_le _⟩
      · simp [hg]
      · rw [hg]
        exact hother
  | @snoc ls e e' l hbefore hstep ih =>
      obtain ⟨g, hreads, hok⟩ := ih
      have hlater := fun rid (hwas : WasNewest t reader start first ls e rid) => hwas.later hstep
      rw [List.countP_append]
      cases hstep with
      | read hs hread =>
          obtain ⟨s', hs', hok'⟩ := hok.read hreads (fun rid => WasNewest.now hbefore) hs
          rw [hread] at hs'
          obtain rfl := Except.ok.inj hs'
          exact ⟨g, hreads, hok'.mono hlater⟩
      | other hx hstep =>
          obtain ⟨g', hreads', more, hmore⟩ := hreads.other hx hstep
          exact ⟨g', hreads', (hok.other hreads hstep hmore).mono hlater⟩

/-- While other transactions insert, update and commit, a READ_COMMITTED `read` of
a tuple whose insert had committed and that the reader did not write never fails
and takes at most two steps for each version the chain has by then; when it is
back, it is valid, and the version it returns was the newest committed one at
some moment since it began. -/
theorem read_newest (hreach : (database t).Reachable start)
    (hruns : start.transactions.Runs reader .readCommitted) {v : Version} {vs : List Version}
    (hvs : Versions start.slot first (v :: vs)) (hv : start.state v.writer = .committed)
    (hother : ∀ u ∈ v :: vs, u.writer ≠ reader) {ls : List ReadLabel} {db : Database}
    {s : HeapFile.ReadState}
    (hrun : (reading t reader start first).Run (start, .fetch first) ls (db, s)) :
    ∃ ws, Versions db.slot first ws ∧ ls.countP ReadLabel.isRead ≤ 2 * ws.length ∧
      match s with
      | .done valid rid => valid = true ∧ WasNewest t reader start first ls (db, s) rid
      | .fetch _ | .judge _ _ => ∃ s', db.heapFile.readStep db.transactions reader s = .ok s' := by
  obtain ⟨g, hreads, hok⟩ := readerOk_run hreach hruns hvs hv hother hrun
  refine ⟨g first, hreads.invariant.chains first hreads.tuple, ?_⟩
  have hnext := hok.read hreads fun rid => WasNewest.now hrun
  cases s with
  | fetch rid =>
      obtain ⟨s', hs', _⟩ := hnext trivial
      obtain ⟨us, v, ws, hon, hn⟩ := hok
      refine ⟨?_, s', hs'⟩
      rw [hon.chain, List.length_append]
      omega
  | judge rid header =>
      obtain ⟨s', hs', _⟩ := hnext trivial
      obtain ⟨us, v, ws, hon, hn, _⟩ := hok
      refine ⟨?_, s', hs'⟩
      rw [hon.chain, List.length_append, List.length_cons]
      omega
  | done valid rid =>
      obtain ⟨hvalid, hnewest, hn⟩ := hok
      exact ⟨hn, hvalid, hnewest⟩

end Reading

/-! ## A reader of one row -/

/-- Transaction 1 inserts a row and commits, transaction 2 starts: a state some run
reaches. -/
theorem committedRow_reachable (fileId : FileId) : ∃ db first,
    (database oneIntColumn).Reachable db ∧ db.transactions.Runs 2 .readCommitted ∧
      db.state 1 = .committed ∧ Versions db.slot first [⟨first, 1, [.int 5]⟩] := by
  obtain ⟨db, first, h, hruns, hcount, hs, _, _, _, hvs⟩ := oneRow_reachable fileId
  obtain ⟨tm₁, htm₁⟩ := hruns.addToWriteSet first
  have hsame := TransactionManager.addToWriteSet_ok htm₁
  have h₁ := h.step (Step.addToWriteSet hs htm₁)
  obtain ⟨tm₂, htm₂⟩ := (hsame.runs 1 _ hruns).setCommitted
  obtain ⟨_, hcount₂, hstates, _⟩ := TransactionManager.setCommitted_ok htm₂
  have h₂ := h₁.step (Step.setCommitted (setSession_self ..) htm₂)
  have htwo : tm₂.transactionCount = 2 := hcount₂.trans (hsame.count.trans hcount)
  have hlt : tm₂.transactionCount + 1 < 2 ^ 64 := by
    rw [htwo]
    norm_num
  have h₃ := h₂.step (Step.start .readCommitted hlt)
  refine ⟨_, first, h₃, ?_, ?_, hvs⟩
  · have hstart := tm₂.runs_start .readCommitted
    rw [htwo] at hstart
    exact hstart
  · have hstate := tm₂.getState_start .readCommitted 1
    rw [htwo, if_neg (by norm_num), hstates, if_pos rfl] at hstate
    exact hstate

/-- Its `read` is back with the row after two steps. -/
theorem read_newest_committedRow : ∃ start db first rid ls,
    (database oneIntColumn).Reachable start ∧
      (reading oneIntColumn 2 start first).Run (start, .fetch first) ls (db, .done true rid) ∧
      WasNewest oneIntColumn 2 start first ls (db, .done true rid) rid := by
  obtain ⟨db, first, hreach, hruns, hcommitted, hvs⟩ := committedRow_reachable ⟨3⟩
  have hother : ∀ u ∈ [(⟨first, 1, [.int 5]⟩ : Version)], u.writer ≠ 2 := by
    intro u hu
    rw [List.mem_singleton.mp hu]
    norm_num
  -- the header, then the states
  have hvalid : db.heapFile.Valid := (reachable_invariant hreach).choose_spec.valid
  have hfetch : db.heapFile.readStep db.transactions 2 (.fetch first) =
      .ok (.judge first ⟨1, 0, first, first⟩) := by
    have hslot : db.heapFile.slot first = _ := hvs.linked.1
    simp only [HeapFile.readStep, hvalid.getRecordHeader_eq hslot, Outcome.ok_bind]
    rfl
  have hjudge : db.heapFile.readStep db.transactions 2 (.judge first ⟨1, 0, first, first⟩) =
      .ok (.done true first) := by
    have hstate : db.transactions.getState 1 = .committed := hcommitted
    simp [HeapFile.readStep, HeapFile.isVisible, TransactionManager.getStates, hstate,
      hruns.isolationLevel]
  have hrun : (reading oneIntColumn 2 db first).Run (db, .fetch first) ([] ++ [.read] ++ [.read])
      (db, .done true first) :=
    .snoc (.snoc .nil (.read trivial hfetch)) (.read trivial hjudge)
  obtain ⟨_, _, _, _, hnewest⟩ := read_newest hreach hruns hvs hcommitted hother hrun
  exact ⟨db, db, first, first, _, hreach, hrun, hnewest⟩

end Iic3413Db.Mvcc
