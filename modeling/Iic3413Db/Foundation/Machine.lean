/-
  Foundation/Machine.lean --- labelled transition systems, their runs and the two
  induction rules every later module uses.

  Nothing here mentions the database.  `Reachable.invariant` is "holds initially
  and is kept by every step, so holds everywhere"; `Simulation.run` is the same
  argument for two machines in lock step: a run of the concrete one is matched,
  label by label, by a run of the abstract one.
-/
import Mathlib.Logic.Basic
import Mathlib.Data.List.Basic

set_option autoImplicit false

namespace Iic3413Db.Foundation

/-- A labelled transition system. -/
structure Machine (State Label : Type) where
  /-- The states a run may start in. -/
  init : State → Prop
  /-- One step under a label. -/
  step : State → Label → State → Prop

namespace Machine

variable {State Label : Type} {M : Machine State Label}

/-- `M.Run s ls t`: the labels `ls`, in order, lead from `s` to `t`. -/
inductive Run (M : Machine State Label) (s : State) : List Label → State → Prop
  | nil : Run M s [] s
  | snoc {ls : List Label} {t u : State} {l : Label} :
      Run M s ls t → M.step t l u → Run M s (ls ++ [l]) u

/-- The states some run from an initial state ends in. -/
inductive Reachable (M : Machine State Label) : State → Prop
  | init {s : State} : M.init s → Reachable M s
  | step {s t : State} {l : Label} : Reachable M s → M.step s l t → Reachable M t

theorem Run.reachable {s t : State} {ls : List Label} (hs : M.init s)
    (h : M.Run s ls t) : M.Reachable t := by
  induction h with
  | nil => exact .init hs
  | snoc _ hstep ih => exact .step ih hstep

/-- Every run keeps what every step keeps. -/
theorem Run.invariant {Inv : State → Prop}
    (hstep : ∀ s l t, Inv s → M.step s l t → Inv t)
    {s t : State} {ls : List Label} (h : M.Run s ls t) (hs : Inv s) : Inv t := by
  induction h with
  | nil => exact hs
  | snoc _ hlast ih => exact hstep _ _ _ ih hlast

/-- What holds initially and is kept by every step holds in every reachable
state. -/
theorem Reachable.invariant {Inv : State → Prop}
    (hinit : ∀ s, M.init s → Inv s)
    (hstep : ∀ s l t, Inv s → M.step s l t → Inv t)
    {s : State} (h : M.Reachable s) : Inv s := by
  induction h with
  | init hs => exact hinit _ hs
  | step _ hlast ih => exact hstep _ _ _ ih hlast

theorem Run.single {s t : State} {l : Label} (h : M.step s l t) : M.Run s [l] t := by
  simpa using Run.snoc .nil h

theorem Run.append {s t u : State} {ls ls' : List Label}
    (h : M.Run s ls t) (h' : M.Run t ls' u) : M.Run s (ls ++ ls') u := by
  induction h' with
  | nil => simpa using h
  | snoc _ hlast ih => rw [← List.append_assoc]; exact .snoc ih hlast

/-- The runs of `M` whose steps all meet a condition. -/
def restrict (M : Machine State Label) (P : State → Label → Prop) : Machine State Label where
  init := M.init
  step s l t := P s l ∧ M.step s l t

theorem Reachable.of_restrict {P : State → Label → Prop} {s : State}
    (h : (M.restrict P).Reachable s) : M.Reachable s := by
  induction h with
  | init hs => exact .init hs
  | step _ hlast ih => exact .step ih hlast.2

end Machine

/-- `R` simulates the concrete machine `C` by the abstract machine `A` with the
same labels. -/
structure Simulation {S T Label : Type} (C : Machine S Label) (A : Machine T Label)
    (R : S → T → Prop) : Prop where
  /-- Every concrete start has an abstract one. -/
  init : ∀ s, C.init s → ∃ t, A.init t ∧ R s t
  /-- Every concrete step is matched under the same label. -/
  step : ∀ s l s' t, R s t → C.step s l s' → ∃ t', A.step t l t' ∧ R s' t'

/-- A concrete run is matched by an abstract run with the same labels, and the
two ends are related. -/
theorem Simulation.run {S T Label : Type} {C : Machine S Label} {A : Machine T Label}
    {R : S → T → Prop} (sim : Simulation C A R) {s s' : S} {t : T} {ls : List Label}
    (h : C.Run s ls s') (hR : R s t) : ∃ t', A.Run t ls t' ∧ R s' t' := by
  induction h with
  | nil => exact ⟨t, .nil, hR⟩
  | snoc _ hlast ih =>
      obtain ⟨t', hrun, hR'⟩ := ih
      obtain ⟨t'', hstep, hR''⟩ := sim.step _ _ _ _ hR' hlast
      exact ⟨t'', .snoc hrun hstep, hR''⟩

end Iic3413Db.Foundation
