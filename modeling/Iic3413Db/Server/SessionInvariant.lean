/-
  Server/SessionInvariant.lean --- what a session knows of the transactions it has
  started, in runs in which no session aborts another's.

  Everything a session knows is about the threads of its own transactions, and a
  step of another session is a step of a transaction that is not one of them.
-/
import Iic3413Db.Server.Session

set_option autoImplicit false

namespace Iic3413Db.Server

open Iic3413Db.Foundation Iic3413Db.RelationalModel Iic3413Db.Storage
open Iic3413Db.System (Catalog TableId TableInfo TableColumn IsolationLevel TransactionState)

/-! ## What a session knows -/

/-- The transaction has ended. -/
def Gone (s : State) (x : TxID) : Prop := ∃ e, s.threads x = .ended e

/-- Every transaction of the session has ended. -/
structure Free (s : State) (c : Session) : Prop where
  state : c.state = 0
  gone : ∀ x ∈ c.started, Gone s x
  last : c.started = [] ∨ c.txId ∈ c.started

/-- The transaction is the session's, and the only one that has not ended. -/
structure Holds (s : State) (c : Session) : Prop where
  own : c.txId ∈ c.started
  gone : ∀ x ∈ c.started, x ≠ c.txId → Gone s x

/-- The session has an open transaction, between two calls. -/
structure Open (s : State) (c : Session) : Prop extends Holds s c where
  state : c.state = 1
  idle : s.threads c.txId = .idle

/-- What is known at each place. -/
def SessionOk (s : State) (c : Session) : Prop :=
  match c.phase with
  | .absent => c.started = []
  | .reading | .responding | .failed => Free s c ∨ Open s c
  | .executing true => c.state = 0 ∧ Holds s c
  | .executing false => c.state = 1 ∧ Holds s c
  | .ending => c.state = 1 ∧ Holds s c
  | .disconnecting => c.state = 1 ∧ Holds s c
  | .ended => Free s c
  | .racing => False

section Congr

variable {s s' : State} {c : Session}

theorem Gone.congr {x : TxID} (hthreads : s'.threads x = s.threads x) (h : Gone s x) :
    Gone s' x := by
  obtain ⟨e, he⟩ := h
  exact ⟨e, hthreads.trans he⟩

theorem Free.congr (hthreads : ∀ x ∈ c.started, s'.threads x = s.threads x) (h : Free s c) :
    Free s' c :=
  ⟨h.state, fun x hx => (h.gone x hx).congr (hthreads x hx), h.last⟩

theorem Holds.congr (hthreads : ∀ x ∈ c.started, s'.threads x = s.threads x) (h : Holds s c) :
    Holds s' c :=
  ⟨h.own, fun x hx hne => (h.gone x hx hne).congr (hthreads x hx)⟩

theorem Open.congr (hthreads : ∀ x ∈ c.started, s'.threads x = s.threads x) (h : Open s c) :
    Open s' c :=
  ⟨h.toHolds.congr hthreads, h.state, (hthreads c.txId h.own).trans h.idle⟩

/-- What a session knows is about its own transactions. -/
theorem SessionOk.congr (hthreads : ∀ x ∈ c.started, s'.threads x = s.threads x)
    (h : SessionOk s c) : SessionOk s' c := by
  have hbetween : Free s c ∨ Open s c → Free s' c ∨ Open s' c :=
    fun h => h.imp (Free.congr hthreads) (Open.congr hthreads)
  unfold SessionOk at h ⊢
  cases hc : c.phase with
  | absent => simpa [hc] using h
  | reading => exact hbetween (by simpa [hc] using h)
  | responding => exact hbetween (by simpa [hc] using h)
  | failed => exact hbetween (by simpa [hc] using h)
  | executing commitAtEnd =>
      cases commitAtEnd with
      | true =>
          have h : c.state = 0 ∧ Holds s c := by simpa [hc] using h
          exact ⟨h.1, h.2.congr hthreads⟩
      | false =>
          have h : c.state = 1 ∧ Holds s c := by simpa [hc] using h
          exact ⟨h.1, h.2.congr hthreads⟩
  | ending =>
      have h : c.state = 1 ∧ Holds s c := by simpa [hc] using h
      exact ⟨h.1, h.2.congr hthreads⟩
  | disconnecting =>
      have h : c.state = 1 ∧ Holds s c := by simpa [hc] using h
      exact ⟨h.1, h.2.congr hthreads⟩
  | ended =>
      have h : Free s c := by simpa [hc] using h
      exact h.congr hthreads
  | racing => simp [hc] at h

theorem between_phase {phase : Phase} (h : Free s c ∨ Open s c) :
    Free s { c with phase := phase } ∨ Open s { c with phase := phase } :=
  h.imp (fun h => ⟨h.state, h.gone, h.last⟩) fun h => ⟨⟨h.own, h.gone⟩, h.state, h.idle⟩

/-- When the one transaction that had not ended has ended. -/
theorem Holds.free (h : Holds s c) {state : Int} {phase : Phase} (hstate : state = 0)
    (hended : Gone s c.txId) : Free s { c with state := state, phase := phase } := by
  refine ⟨hstate, fun x hx => ?_, .inr h.own⟩
  by_cases hne : x = c.txId
  · rw [hne]
    exact hended
  · exact h.gone x hx hne

/-- A step of the one transaction that has not ended. -/
theorem Holds.step (h : Holds s c) (hf : Frame c.txId s s') : Holds s' c :=
  ⟨h.own, fun x hx hne => (h.gone x hx hne).congr (hf.threads x hne)⟩

/-- A new transaction, when every other has ended. -/
theorem Free.start (h : Free s c) (hf : Frame s.globals.catalog.transactionCount s s')
    {state : Int} {phase : Phase} :
    Holds s' ⟨state, s.globals.catalog.transactionCount, phase,
      c.started ++ [s.globals.catalog.transactionCount]⟩ := by
  refine ⟨List.mem_append_right _ (List.mem_singleton_self _), fun x hx hne => ?_⟩
  rcases List.mem_append.mp hx with hx | hx
  · exact (h.gone x hx).congr (hf.threads x hne)
  · exact absurd (List.mem_singleton.mp hx) hne

end Congr

/-! ## Calm runs -/

/-- A session that ends by end of file before it has started a transaction finds
no transaction under the id it was constructed with. -/
def Calm (v : Sessions) (l : Nat × Event) : Prop :=
  l.2 = .endOfFile → (v.sessions l.1).started = [] →
    v.base.globals.activeTransactions (v.sessions l.1).txId = none

/-- The runs in which every such end is calm. -/
def calmServer : Machine Sessions (Nat × Event) := server.restrict Calm

structure ServerOk (v : Sessions) : Prop where
  base : Invariant v.base
  known : ∀ i, ∀ x ∈ (v.sessions i).started, v.base.threads x ≠ .absent
  apart : ∀ i j, i ≠ j → ∀ x ∈ (v.sessions i).started, x ∉ (v.sessions j).started
  sessions : ∀ i, SessionOk v.base (v.sessions i)

theorem ServerOk.init {v : Sessions} (h : server.init v) : ServerOk v := by
  obtain ⟨hopened, hsessions⟩ := h
  refine ⟨.opened hopened, fun i x hx => ?_, fun i j _ x hx => ?_, fun i => ?_⟩
  · simp [(hsessions i).2] at hx
  · simp [(hsessions i).2] at hx
  · simp [SessionOk, hsessions i]

/-- What a session's event does to the transactions: nothing, a step of its own
transaction, or a new one. -/
inductive Touches (s : State) (c : Session) : State → Session → Prop
  | none {c' : Session} (hstarted : c'.started = c.started) : Touches s c s c'
  | own {s' : State} {c' : Session} {a : Action} (hown : c.txId ∈ c.started)
      (hstep : Step s (c.txId, a) s') (hstarted : c'.started = c.started) : Touches s c s' c'
  | new {s' : State} {c' : Session} {level : IsolationLevel}
      (hstep : Step s (s.globals.catalog.transactionCount, .start level) s')
      (hstarted : c'.started = c.started ++ [s.globals.catalog.transactionCount]) :
      Touches s c s' c'

section Steps

variable {s s' : State} {c c' : Session} {e : Event}

theorem SessionOk.between (h : SessionOk s c) (hc : c.Between) : Free s c ∨ Open s c := by
  unfold SessionOk at h
  rcases hc with hc | hc
  · simpa [hc] using h
  · simpa [hc] using h

theorem SessionOk.failed (h : SessionOk s c) (hc : c.phase = .failed) : Free s c ∨ Open s c := by
  unfold SessionOk at h
  simpa [hc] using h

theorem SessionOk.executing {commitAtEnd : Bool} (h : SessionOk s c)
    (hc : c.phase = .executing commitAtEnd) :
    c.state = (if commitAtEnd then 0 else 1) ∧ Holds s c := by
  unfold SessionOk at h
  cases commitAtEnd with
  | true => simpa [hc] using h
  | false => simpa [hc] using h

theorem SessionOk.ending (h : SessionOk s c) (hc : c.phase = .ending ∨ c.phase = .disconnecting) :
    c.state = 1 ∧ Holds s c := by
  unfold SessionOk at h
  rcases hc with hc | hc
  · simpa [hc] using h
  · simpa [hc] using h

/-- A transaction that has ended is not found. -/
theorem Invariant.gone_none (h : Invariant s) {x : TxID} (hx : Gone s x) :
    s.globals.activeTransactions x = none ∧ Unlocked s.globals x := by
  obtain ⟨e, he⟩ := hx
  have hlock := h.locks x
  rw [he] at hlock
  exact hlock

/-- A transaction between two calls is found. -/
theorem Invariant.idle_some (h : Invariant s) {x : TxID} (hx : s.threads x = .idle) :
    ∃ tx, s.globals.activeTransactions x = some tx := by
  have hlock := h.locks x
  rw [hx] at hlock
  obtain ⟨tx, hentry, _⟩ := hlock
  exact ⟨tx, hentry.found⟩

/-- The states in which `run_query` comes to a command. -/
def Command.Fits (state : Int) : Command → Prop
  | .begin _ | .execute true => state = 0
  | .commit | .abort | .execute false => state = 1
  | .answer _ | .vacuum _ => True

theorem runQuery_fits (state : Int) (txId : TxID) (query : List UInt8) :
    (runQuery state txId query).Fits state := by
  unfold runQuery
  split
  · rename_i hzero
    repeat' split
    all_goals first | exact hzero | trivial
  · split
    · rename_i hone
      repeat' split
      all_goals first | exact hone | trivial
    · trivial

theorem runQuery_eq {state : Int} {txId : TxID} {query : List UInt8} {command : Command}
    (h : runQuery state txId query = command) : command.Fits state := by
  rw [← h]
  exact runQuery_fits state txId query

/-- An abort begins between two calls of a transaction that is found. -/
theorem Step.abort_begins {x : TxID} (h : Step s (x, .abort) s') :
    s.threads x = .idle ∧ ∃ tx, s.globals.activeTransactions x = some tx := by
  cases h with
  | abort hs hbegin => exact ⟨hs, _, Globals.abortBegin_ok hbegin⟩

theorem Step.abort_found {x : TxID} {tx : Transaction} (hs : s.threads x = .idle)
    (htx : s.globals.activeTransactions x = some tx) :
    Step s (x, .abort) (s.setThread x (.undoing .aborted)) := by
  have hbegin : s.globals.abortBegin x = .ok tx := by
    unfold Globals.abortBegin
    rw [htx]
  exact .abort hs hbegin

theorem Step.start_idle {level : IsolationLevel}
    (h : Step s (s.globals.catalog.transactionCount, .start level) s') :
    s'.threads s.globals.catalog.transactionCount = .idle := by
  cases h with
  | start level => simp

theorem Free.of_state (h : Free s c ∨ Open s c) (hstate : c.state = 0) : Free s c := by
  refine h.elim id fun hopen => ?_
  have hone := hopen.state
  rw [hstate] at hone
  cases hone

theorem Open.of_state (h : Free s c ∨ Open s c) (hstate : c.state = 1) : Open s c := by
  refine h.elim (fun hfree => ?_) id
  have hzero := hfree.state
  rw [hstate] at hzero
  cases hzero

/-- What `handle_abort` finds, in a calm run, is the session's open transaction. -/
theorem SessionOk.finds (h : SessionOk s c) (hinv : Invariant s) (hc : c.Between)
    (hcalm : c.started = [] → s.globals.activeTransactions c.txId = none) {tx : Transaction}
    (htx : s.globals.activeTransactions c.txId = some tx) : Open s c := by
  refine (h.between hc).elim (fun hfree => ?_) id
  have hnone : s.globals.activeTransactions c.txId = none := by
    rcases hfree.last with hnil | hown
    · exact hcalm hnil
    · exact (hinv.gone_none (hfree.gone c.txId hown)).1
  rw [htx] at hnone
  cases hnone

/-- A step of a call is a step of the session's transaction. -/
theorem SessionOk.call {a : Action} (h : SessionOk s c) (hinv : Invariant s)
    (ha : c.phase.allows a = true) (hstep : Step s (c.txId, a) s') :
    Touches s c s' c ∧ SessionOk s' c := by
  have hcall : Holds s c → Touches s c s' c ∧ Holds s' c := fun hholds =>
    ⟨.own hholds.own hstep rfl, hholds.step (hinv.step_frame hstep)⟩
  cases hc : c.phase with
  | executing commitAtEnd =>
      obtain ⟨hstate, hholds⟩ := h.executing hc
      refine ⟨(hcall hholds).1, ?_⟩
      unfold SessionOk
      rw [hc]
      cases commitAtEnd with
      | true => exact ⟨hstate, (hcall hholds).2⟩
      | false => exact ⟨hstate, (hcall hholds).2⟩
  | ending =>
      obtain ⟨hstate, hholds⟩ := h.ending (.inl hc)
      refine ⟨(hcall hholds).1, ?_⟩
      unfold SessionOk
      rw [hc]
      exact ⟨hstate, (hcall hholds).2⟩
  | disconnecting =>
      obtain ⟨hstate, hholds⟩ := h.ending (.inr hc)
      refine ⟨(hcall hholds).1, ?_⟩
      unfold SessionOk
      rw [hc]
      exact ⟨hstate, (hcall hholds).2⟩
  | _ => simp [hc, Phase.allows] at ha

theorem SessionOk.step (h : SessionOk s c) (hinv : Invariant s) (hstep : SessionStep s c e s' c')
    (hcalm : e = .endOfFile → c.started = [] → s.globals.activeTransactions c.txId = none) :
    Touches s c s' c' ∧ SessionOk s' c' := by
  cases hstep with
  | connect txId hc =>
      have hnil : c.started = [] := by simpa [SessionOk, hc] using h
      exact ⟨.none rfl, .inl ⟨rfl, by simp [hnil], .inl hnil⟩⟩
  | begin hc hq hstart =>
      have hfree := Free.of_state (h.between (.inl hc)) (runQuery_eq hq)
      exact ⟨.new hstart rfl, .inr ⟨hfree.start (hinv.step_frame hstart), rfl, hstart.start_idle⟩⟩
  | answer hc hq =>
      exact ⟨.none rfl, between_phase (h.between (.inl hc))⟩
  | vacuum hc hq =>
      exact ⟨.none rfl, between_phase (h.between (.inl hc))⟩
  | autocommit hc hq hstart =>
      have hfree := Free.of_state (h.between (.inl hc)) (runQuery_eq hq)
      exact ⟨.new hstart rfl, hfree.state, hfree.start (hinv.step_frame hstart)⟩
  | execute hc hq =>
      have hopen := Open.of_state (h.between (.inl hc)) (runQuery_eq hq)
      exact ⟨.none rfl, hopen.state, hopen.own, hopen.gone⟩
  | commit hc hq hcommit =>
      have hopen := Open.of_state (h.between (.inl hc)) (runQuery_eq hq)
      have hholds := hopen.toHolds.step (hinv.step_frame hcommit)
      exact ⟨.own hopen.own hcommit rfl, hopen.state, hholds.own, hholds.gone⟩
  | commitThrows hc hq hthrows =>
      exact ⟨.none rfl, between_phase (h.between (.inl hc))⟩
  | abort hc hq habort =>
      have hopen := Open.of_state (h.between (.inl hc)) (runQuery_eq hq)
      have hholds := hopen.toHolds.step (hinv.step_frame habort)
      exact ⟨.own hopen.own habort rfl, hopen.state, hholds.own, hholds.gone⟩
  | abortThrows hc hq hthrows =>
      exact ⟨.none rfl, between_phase (h.between (.inl hc))⟩
  | call ha hstep =>
      exact h.call hinv ha hstep
  | statementReturns hc hidle =>
      obtain ⟨hstate, hholds⟩ := h.executing hc
      exact ⟨.none rfl, .inr ⟨⟨hholds.own, hholds.gone⟩, hstate, hidle⟩⟩
  | statementEnded hc hended =>
      obtain ⟨hstate, hholds⟩ := h.executing hc
      refine ⟨.none rfl, .inl (hholds.free ?_ ⟨_, hended⟩)⟩
      rw [hstate]
      split
      · rfl
      · rfl
  | commandEnded hc hended =>
      obtain ⟨hstate, hholds⟩ := h.ending (.inl hc)
      refine ⟨.none rfl, .inl (hholds.free ?_ ⟨_, hended⟩)⟩
      rw [hstate]
      split
      · rfl
      · rfl
  | response hc =>
      exact ⟨.none rfl, between_phase (h.between (.inr hc))⟩
  | endOfFile hc hthrows =>
      have hfree : Free s c := by
        refine (h.between hc).elim id fun hopen => ?_
        obtain ⟨tx, htx⟩ := hinv.idle_some hopen.idle
        simp [Globals.abortBegin, htx] at hthrows
      refine ⟨.none rfl, ?_, hfree.gone, hfree.last⟩
      rw [hfree.state]
      rfl
  | endOfFileAborts hc habort =>
      obtain ⟨_, tx, htx⟩ := habort.abort_begins
      have hopen := h.finds hinv hc (hcalm rfl) htx
      have hholds := hopen.toHolds.step (hinv.step_frame habort)
      exact ⟨.own hopen.own habort rfl, hopen.state, hholds.own, hholds.gone⟩
  | endOfFileRaces hc hbegin hbusy =>
      have hopen := h.finds hinv hc (hcalm rfl) (Globals.abortBegin_ok hbegin)
      exact absurd hopen.idle hbusy
  | disconnected hc hended =>
      obtain ⟨hstate, hholds⟩ := h.ending (.inr hc)
      refine ⟨.none rfl, hholds.free ?_ ⟨_, hended⟩⟩
      rw [hstate]
      rfl
  | otherError hc =>
      exact ⟨.none rfl, between_phase (h.between hc)⟩

/-- What a session's event leaves of transactions that are not its own. -/
theorem Touches.frame (h : Touches s c s' c') (hinv : Invariant s) :
    Invariant s' ∧ ∀ x, s.threads x ≠ .absent → x ∉ c.started →
      s'.threads x = s.threads x ∧
      s'.globals.activeTransactions x = s.globals.activeTransactions x ∧
      ∀ key, s'.globals.lockTable key = some x ↔ s.globals.lockTable key = some x := by
  cases h with
  | none hstarted => exact ⟨hinv, fun x _ _ => ⟨rfl, rfl, fun _ => .rfl⟩⟩
  | own hown hstep hstarted =>
      have hf := hinv.step_frame hstep
      refine ⟨hinv.step hstep, fun x _ hx => ?_⟩
      have hne : x ≠ c.txId := fun heq => hx (heq ▸ hown)
      exact ⟨hf.threads x hne, hf.entries x hne, hf.locks x hne⟩
  | new hstep hstarted =>
      have hf := hinv.step_frame hstep
      refine ⟨hinv.step hstep, fun x hx _ => ?_⟩
      have hne : x ≠ s.globals.catalog.transactionCount := fun heq => hx (heq ▸ hinv.absent)
      exact ⟨hf.threads x hne, hf.entries x hne, hf.locks x hne⟩

/-- The transactions a session has started are there. -/
theorem Touches.known (h : Touches s c s' c') (hinv : Invariant s)
    (hknown : ∀ x ∈ c.started, s.threads x ≠ .absent) :
    (∀ x ∈ c'.started, s'.threads x ≠ .absent) ∧
    ∀ x ∈ c'.started, x ∈ c.started ∨ s.threads x = .absent := by
  cases h with
  | none hstarted =>
      rw [hstarted]
      exact ⟨hknown, fun x hx => .inl hx⟩
  | own hown hstep hstarted =>
      have hf := hinv.step_frame hstep
      rw [hstarted]
      refine ⟨fun x hx => ?_, fun x hx => .inl hx⟩
      by_cases hne : x = c.txId
      · rw [hne]
        exact hstep.there (hknown _ hown)
      · rw [hf.threads x hne]
        exact hknown x hx
  | new hstep hstarted =>
      have hf := hinv.step_frame hstep
      rw [hstarted]
      refine ⟨fun x hx => ?_, fun x hx => ?_⟩
      · rcases List.mem_append.mp hx with hx | hx
        · have hne : x ≠ s.globals.catalog.transactionCount :=
            fun heq => hknown x hx (heq ▸ hinv.absent)
          rw [hf.threads x hne]
          exact hknown x hx
        · rw [List.mem_singleton.mp hx, hstep.start_idle]
          simp
      · rcases List.mem_append.mp hx with hx | hx
        · exact .inl hx
        · rw [List.mem_singleton.mp hx]
          exact .inr hinv.absent

end Steps

/-! ## Every event -/

theorem ServerOk.step {v v' : Sessions} {l : Nat × Event} (h : ServerOk v) (hcalm : Calm v l)
    (hstep : server.step v l v') : ServerOk v' := by
  obtain ⟨c', hstep, hsessions⟩ := hstep
  obtain ⟨htouches, hok⟩ := (h.sessions l.1).step h.base hstep hcalm
  obtain ⟨hinv, hothers⟩ := htouches.frame h.base
  obtain ⟨hknown, hgrown⟩ := htouches.known h.base (h.known l.1)
  have hself : v'.sessions l.1 = c' := by rw [hsessions, Function.update_self]
  have hother : ∀ i, i ≠ l.1 → v'.sessions i = v.sessions i :=
    fun i hi => by rw [hsessions, Function.update_of_ne hi]
  have hapart : ∀ i, i ≠ l.1 → ∀ x ∈ (v.sessions i).started, x ∉ (v'.sessions l.1).started := by
    intro i hi x hx hin
    rw [hself] at hin
    rcases hgrown x hin with hin | habsent
    · exact h.apart i l.1 hi x hx hin
    · exact h.known i x hx habsent
  have hframe : ∀ i, i ≠ l.1 → ∀ x ∈ (v.sessions i).started,
      v'.base.threads x = v.base.threads x :=
    fun i hi x hx => (hothers x (h.known i x hx) (h.apart i l.1 hi x hx)).1
  refine ⟨hinv, fun i x hx => ?_, fun i j hij x hx => ?_, fun i => ?_⟩
  · by_cases hi : i = l.1
    · rw [hi, hself] at hx
      exact hknown x hx
    · rw [hother i hi] at hx
      rw [hframe i hi x hx]
      exact h.known i x hx
  · by_cases hi : i = l.1
    · have hj : j ≠ l.1 := fun heq => hij (hi.trans heq.symm)
      rw [hother j hj]
      rw [hi] at hx
      exact fun hin => hapart j hj x hin hx
    · rw [hother i hi] at hx
      by_cases hj : j = l.1
      · rw [hj]
        exact hapart i hi x hx
      · rw [hother j hj]
        exact h.apart i j hij x hx
  · by_cases hi : i = l.1
    · rw [hi, hself]
      exact hok
    · rw [hother i hi]
      exact (h.sessions i).congr (hframe i hi)

theorem reachable_serverOk {v : Sessions} (h : calmServer.Reachable v) : ServerOk v :=
  h.invariant (fun _ => .init) fun _ _ _ h hstep => h.step hstep.1 hstep.2

end Iic3413Db.Server
