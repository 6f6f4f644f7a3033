/-
  System/ClockTurns.lean --- where the clock of `get_unused_page` stops, and which
  second-chance bits it has spent by then.

  The state after `k` turns of the loop body is a function of the state before the
  first: `afterTurns`.  One turn either stops there or goes to the state after
  `k + 1` turns (`loop_afterTurns`), so a call returns the state after the least
  number of turns at which it may stop.  An unpinned frame may be taken at the
  latest when the clock reaches it for the second time.
-/
import Iic3413Db.System.BufferClock
import Mathlib.Tactic.Ring

set_option autoImplicit false

namespace Iic3413Db.System.BufferManager

open Iic3413Db.Storage

/-! ## Positions around the ring -/

/-- Where the clock stands after `k` turns. -/
def position (bm : BufferManager) (k : Nat) : Nat := (bm.clock + k) % bm.frames.length

/-- The clock has left frame `i` behind within its first `k` turns. -/
def Passed (bm : BufferManager) (k i : Nat) : Prop := ∃ j, j < k ∧ bm.position j = i

instance (bm : BufferManager) (k i : Nat) : Decidable (bm.Passed k i) :=
  inferInstanceAs (Decidable (∃ j, j < k ∧ bm.position j = i))

theorem position_zero {bm : BufferManager} (hclock : bm.clock < bm.frames.length) :
    bm.position 0 = bm.clock := Nat.mod_eq_of_lt hclock

theorem position_lt {bm : BufferManager} (hclock : bm.clock < bm.frames.length) (k : Nat) :
    bm.position k < bm.frames.length := Nat.mod_lt _ (by omega)

theorem position_succ {bm : BufferManager} (hclock : bm.clock < bm.frames.length) (k : Nat) :
    bm.position (k + 1) =
      if bm.position k + 1 < bm.frames.length then bm.position k + 1 else 0 := by
  have hlt := position_lt hclock k
  have hmod : bm.position (k + 1) = (bm.position k + 1) % bm.frames.length := by
    simp only [position]
    rw [← Nat.add_assoc, Nat.mod_add_mod]
  rw [hmod]
  split
  · rename_i hin
    exact Nat.mod_eq_of_lt hin
  · have hend : bm.position k + 1 = bm.frames.length := by omega
    rw [hend, Nat.mod_self]

/-- One full turn later the clock is where it was. -/
theorem position_add_length (bm : BufferManager) (k : Nat) :
    bm.position (k + bm.frames.length) = bm.position k := by
  simp only [position]
  rw [← Nat.add_assoc, Nat.add_mod_right]

/-- A full turn meets every frame. -/
theorem position_covers {bm : BufferManager} (hclock : bm.clock < bm.frames.length) {i : Nat}
    (hi : i < bm.frames.length) : ∃ j, j < bm.frames.length ∧ bm.position j = i := by
  by_cases hle : bm.clock ≤ i
  · refine ⟨i - bm.clock, by omega, ?_⟩
    rw [position, Nat.add_sub_cancel' hle, Nat.mod_eq_of_lt hi]
  · refine ⟨i + bm.frames.length - bm.clock, by omega, ?_⟩
    have hsum : bm.clock + (i + bm.frames.length - bm.clock) = i + bm.frames.length := by omega
    rw [position, hsum, Nat.add_mod_right, Nat.mod_eq_of_lt hi]

/-- The clock comes back to a frame after a full turn at the earliest. -/
theorem length_le_of_position_eq {bm : BufferManager} {j k : Nat} (hjk : j < k)
    (heq : bm.position j = bm.position k) : bm.frames.length ≤ k := by
  have hmod : (bm.clock + k) % bm.frames.length = (bm.clock + j) % bm.frames.length := heq.symm
  have hdvd := (Nat.modEq_iff_dvd' (by omega)).mp (show Nat.ModEq _ _ _ from hmod.symm)
  have hle := Nat.le_of_dvd (by omega) hdvd
  omega

theorem passed_succ (bm : BufferManager) (k i : Nat) :
    bm.Passed (k + 1) i ↔ bm.Passed k i ∨ bm.position k = i := by
  constructor
  · rintro ⟨j, hj, hat⟩
    rcases Nat.lt_succ_iff_lt_or_eq.mp hj with hlt | heq
    · exact .inl ⟨j, hlt, hat⟩
    · exact .inr (heq ▸ hat)
  · rintro (⟨j, hj, hat⟩ | hat)
    · exact ⟨j, Nat.lt_succ_of_lt hj, hat⟩
    · exact ⟨k, Nat.lt_succ_self k, hat⟩

/-! ## The state after `k` turns -/

/-- A frame the clock has passed loses its second chance, unless it is pinned. -/
def spend (frame : Page) (passed : Bool) : Page :=
  if frame.pins = 0 ∧ passed then { frame with secondChance := false } else frame

theorem spend_pins (frame : Page) (passed : Bool) : (spend frame passed).pins = frame.pins := by
  unfold spend
  split <;> rfl

/-- The clock `k` turns on, and the frames it has passed spent. -/
def afterTurns (bm : BufferManager) (k : Nat) : BufferManager :=
  { clock := bm.position k
    frames := bm.frames.mapIdx fun i frame => spend frame (bm.Passed k i)
    pageMap := bm.pageMap }

/-- The loop may stop after `k` turns: the frame there is unpinned, and its bit is
clear or was cleared on an earlier visit. -/
def Stops (bm : BufferManager) (k : Nat) : Prop :=
  ∃ frame, bm.frames[bm.position k]? = some frame ∧ frame.pins = 0 ∧
    (frame.secondChance = false ∨ bm.Passed k (bm.position k))

@[simp] theorem afterTurns_length (bm : BufferManager) (k : Nat) :
    (bm.afterTurns k).frames.length = bm.frames.length := List.length_mapIdx

theorem afterTurns_getElem? {bm : BufferManager} {i : Nat} {frame : Page}
    (h : bm.frames[i]? = some frame) (k : Nat) :
    (bm.afterTurns k).frames[i]? = some (spend frame (bm.Passed k i)) := by
  simp [afterTurns, List.getElem?_mapIdx, h]

theorem afterTurns_zero {bm : BufferManager} (hclock : bm.clock < bm.frames.length) :
    bm.afterTurns 0 = bm := by
  have hframes : (bm.frames.mapIdx fun i frame => spend frame (bm.Passed 0 i)) = bm.frames := by
    refine List.ext_getElem? fun i => ?_
    have hnone : ¬ bm.Passed 0 i := by rintro ⟨j, hj, _⟩; omega
    simp [List.getElem?_mapIdx, spend, hnone]
  rw [afterTurns, hframes, position_zero hclock]

/-- A turn over a pinned frame. -/
theorem advance_afterTurns {bm : BufferManager} (hclock : bm.clock < bm.frames.length) {k : Nat}
    {frame : Page} (hframe : bm.frames[bm.position k]? = some frame) (hpins : frame.pins ≠ 0) :
    (bm.afterTurns k).advance = bm.afterTurns (k + 1) := by
  have hframes : (bm.afterTurns k).frames = (bm.afterTurns (k + 1)).frames := by
    refine List.ext_getElem? fun i => ?_
    cases hi : bm.frames[i]? with
    | none => simp [afterTurns, List.getElem?_mapIdx, hi]
    | some other =>
        rw [afterTurns_getElem? hi, afterTurns_getElem? hi]
        by_cases hat : bm.position k = i
        · have hsame : other = frame := by rw [← hat, hframe] at hi; exact (Option.some.inj hi).symm
          simp [spend, hsame, hpins]
        · simp [passed_succ, hat]
  have hnext : (bm.afterTurns k).advance.clock = (bm.afterTurns (k + 1)).clock := by
    simp only [advance, afterTurns_length]
    exact (position_succ hclock k).symm
  calc (bm.afterTurns k).advance
      = ⟨(bm.afterTurns (k + 1)).clock, (bm.afterTurns k).frames, bm.pageMap⟩ := by
        rw [← hnext]; rfl
    _ = bm.afterTurns (k + 1) := by rw [hframes]; rfl

/-- A turn over an unpinned frame that still has its second chance. -/
theorem setFrame_advance_afterTurns {bm : BufferManager} (hclock : bm.clock < bm.frames.length)
    {k : Nat} {frame : Page} (hframe : bm.frames[bm.position k]? = some frame)
    (hpins : frame.pins = 0) :
    ((bm.afterTurns k).setFrame (bm.position k) { frame with secondChance := false }).advance =
      bm.afterTurns (k + 1) := by
  have hframes : (bm.afterTurns k).frames.set (bm.position k) { frame with secondChance := false } =
      (bm.afterTurns (k + 1)).frames := by
    refine List.ext_getElem? fun i => ?_
    rw [List.getElem?_set]
    by_cases hat : bm.position k = i
    · subst hat
      rw [if_pos rfl, if_pos (by simpa using position_lt hclock k), afterTurns_getElem? hframe]
      simp [spend, hpins, passed_succ]
    · rw [if_neg hat]
      cases hi : bm.frames[i]? with
      | none => simp [afterTurns, List.getElem?_mapIdx, hi]
      | some other =>
          rw [afterTurns_getElem? hi, afterTurns_getElem? hi]
          simp [passed_succ, hat]
  calc ((bm.afterTurns k).setFrame (bm.position k) { frame with secondChance := false }).advance
      = ⟨bm.position (k + 1), (bm.afterTurns k).frames.set (bm.position k)
          { frame with secondChance := false }, bm.pageMap⟩ := by
        rw [position_succ hclock]
        simp only [advance, setFrame, List.length_set, afterTurns_length]
        rfl
    _ = bm.afterTurns (k + 1) := by rw [hframes]; rfl

/-! ## The loop -/

/-- One turn of the loop, from the state after `k` turns. -/
theorem loop_afterTurns {bm : BufferManager} (hclock : bm.clock < bm.frames.length)
    (fuel k : Nat) :
    (bm.Stops k → getUnusedPageLoop (fuel + 1) (bm.afterTurns k) = some (bm.afterTurns k)) ∧
    (¬ bm.Stops k → getUnusedPageLoop (fuel + 1) (bm.afterTurns k) =
      getUnusedPageLoop fuel (bm.afterTurns (k + 1))) := by
  obtain ⟨frame, hframe⟩ : ∃ frame, bm.frames[bm.position k]? = some frame :=
    ⟨_, List.getElem?_eq_getElem (position_lt hclock k)⟩
  have hat : (bm.afterTurns k).frames[(bm.afterTurns k).clock]? =
      some (spend frame (bm.Passed k (bm.position k))) := afterTurns_getElem? hframe k
  rw [getUnusedPageLoop, hat]
  dsimp only
  rw [spend_pins]
  by_cases hpins : frame.pins = 0
  · rw [if_pos hpins]
    by_cases hspent : frame.secondChance = false ∨ bm.Passed k (bm.position k)
    · have hstop : bm.Stops k := ⟨frame, hframe, hpins, hspent⟩
      have hbit : (spend frame (bm.Passed k (bm.position k))).secondChance = false := by
        unfold spend
        split
        · rfl
        · rename_i hnot
          rcases hspent with hclear | hpassed
          · exact hclear
          · exact absurd ⟨hpins, by simpa using hpassed⟩ hnot
      exact ⟨fun _ => by rw [if_pos hbit], fun hno => absurd hstop hno⟩
    · have hgo : ¬ bm.Stops k := by
        rintro ⟨other, hother, _, hspent'⟩
        rw [hframe] at hother
        cases hother
        exact hspent hspent'
      rw [not_or] at hspent
      have hsame : spend frame (bm.Passed k (bm.position k)) = frame := by
        simp [spend, hspent.2]
      refine ⟨fun hyes => absurd hyes hgo, fun _ => ?_⟩
      rw [hsame, if_neg hspent.1]
      exact congrArg _ (setFrame_advance_afterTurns hclock hframe hpins)
  · have hgo : ¬ bm.Stops k := by
      rintro ⟨other, hother, hpins', _⟩
      rw [hframe] at hother
      cases hother
      exact hpins hpins'
    rw [if_neg hpins]
    exact ⟨fun hyes => absurd hyes hgo, fun _ => congrArg _ (advance_afterTurns hclock hframe hpins)⟩

/-- A call returns the state at the first turn after which it may stop. -/
theorem loop_first_stop {bm : BufferManager} (hclock : bm.clock < bm.frames.length) {k : Nat}
    (hstop : bm.Stops k) (hfirst : ∀ j, j < k → ¬ bm.Stops j) :
    ∀ (left j fuel : Nat), j + left = k → left < fuel →
      getUnusedPageLoop fuel (bm.afterTurns j) = some (bm.afterTurns k) := by
  intro left
  induction left with
  | zero =>
      intro j fuel hj hfuel
      obtain ⟨fuel, rfl⟩ : ∃ rest, fuel = rest + 1 := ⟨fuel - 1, by omega⟩
      obtain rfl : j = k := by omega
      exact (loop_afterTurns hclock fuel j).1 hstop
  | succ left ih =>
      intro j fuel hj hfuel
      obtain ⟨fuel, rfl⟩ : ∃ rest, fuel = rest + 1 := ⟨fuel - 1, by omega⟩
      rw [(loop_afterTurns hclock fuel j).2 (hfirst j (by omega))]
      exact ih (j + 1) fuel (by omega) (by omega)

/-- An unpinned frame is taken on the second visit at the latest. -/
theorem stops_within_two_turns {bm : BufferManager} (hclock : bm.clock < bm.frames.length)
    (hfree : ∃ frame ∈ bm.frames, frame.pins = 0) :
    ∃ k, k < 2 * bm.frames.length ∧ bm.Stops k := by
  obtain ⟨frame, hmem, hpins⟩ := hfree
  obtain ⟨i, hi⟩ := List.mem_iff_getElem?.mp hmem
  obtain ⟨j, hj, hat⟩ := position_covers hclock (List.getElem?_eq_some_iff.mp hi).1
  have hround := position_add_length bm j
  refine ⟨j + bm.frames.length, by omega, frame, by rw [hround, hat]; exact hi, hpins, .inr ?_⟩
  exact ⟨j, by omega, hround.symm⟩

/-- Had the frame at the stop its bit set, the clock has been all around, and no
unpinned frame on its way had its bit clear. -/
theorem secondChance_of_late_stop {bm : BufferManager} (hclock : bm.clock < bm.frames.length)
    {k : Nat} (hpassed : bm.Passed k (bm.position k)) (hfirst : ∀ j, j < k → ¬ bm.Stops j)
    {frame : Page} (hmem : frame ∈ bm.frames) (hpins : frame.pins = 0) :
    frame.secondChance = true := by
  obtain ⟨j, hj, hat⟩ := hpassed
  have hround : bm.frames.length ≤ k := length_le_of_position_eq hj hat
  obtain ⟨i, hi⟩ := List.mem_iff_getElem?.mp hmem
  obtain ⟨j', hj', hat'⟩ := position_covers hclock (List.getElem?_eq_some_iff.mp hi).1
  by_contra hclear
  exact hfirst j' (by omega) ⟨frame, by rw [hat']; exact hi, hpins, .inl (by simpa using hclear)⟩

/-- The replacement clock.  With an unpinned frame in the pool the loop leaves
after `k` turns, fewer than two rounds, whatever larger bound it is given; the
frames it passed are spent, all else is as before; the frame it stops at is
unpinned with its bit clear, and had that bit been set at first then so had the
bits of all unpinned frames. -/
theorem getUnusedPage_clock (bm : BufferManager) (hclock : bm.clock < bm.frames.length)
    (hfree : ∃ frame ∈ bm.frames, frame.pins = 0) :
    ∃ (k : Nat) (bm' : BufferManager) (frame : Page),
      k < 2 * bm.frames.length ∧
      (∀ fuel, k < fuel → getUnusedPageLoop fuel bm = some bm') ∧
      bm.getUnusedPage = some bm' ∧
      bm'.clock = (bm.clock + k) % bm.frames.length ∧
      bm'.clock < bm'.frames.length ∧
      bm.frames[bm'.clock]? = some frame ∧
      bm'.frames[bm'.clock]? = some { frame with secondChance := false } ∧
      frame.pins = 0 ∧
      bm'.pageMap = bm.pageMap ∧
      bm'.frames.length = bm.frames.length ∧
      (∀ i other, bm.frames[i]? = some other →
        bm'.frames[i]? = some
          (if other.pins = 0 ∧ ∃ j, j < k ∧ (bm.clock + j) % bm.frames.length = i
            then { other with secondChance := false } else other)) ∧
      (frame.secondChance = true →
        ∀ other ∈ bm.frames, other.pins = 0 → other.secondChance = true) := by
  classical
  have hexists : ∃ k, bm.Stops k := by
    obtain ⟨k, _, hk⟩ := stops_within_two_turns hclock hfree
    exact ⟨k, hk⟩
  obtain ⟨k, hstop, hfirst⟩ : ∃ k, bm.Stops k ∧ ∀ j, j < k → ¬ bm.Stops j :=
    ⟨Nat.find hexists, Nat.find_spec hexists, fun j hj => Nat.find_min hexists hj⟩
  have hbound : k < 2 * bm.frames.length := by
    obtain ⟨k', hk', hstop'⟩ := stops_within_two_turns hclock hfree
    by_contra hle
    exact hfirst k' (by omega) hstop'
  have hloop : ∀ fuel, k < fuel → getUnusedPageLoop fuel bm = some (bm.afterTurns k) := by
    intro fuel hfuel
    have hrun := loop_first_stop hclock hstop hfirst k 0 fuel (by omega) hfuel
    rwa [afterTurns_zero hclock] at hrun
  obtain ⟨frame, hframe, hpins, hspent⟩ := hstop
  have hframes : ∀ i other, bm.frames[i]? = some other →
      (bm.afterTurns k).frames[i]? = some
        (if other.pins = 0 ∧ ∃ j, j < k ∧ (bm.clock + j) % bm.frames.length = i
          then { other with secondChance := false } else other) := by
    intro i other hi
    rw [afterTurns_getElem? hi]
    simp only [spend, decide_eq_true_eq]
    rfl
  have hstopped : (bm.afterTurns k).frames[bm.position k]? =
      some { frame with secondChance := false } := by
    rw [afterTurns_getElem? hframe]
    rcases hspent with hclear | hpassed
    · unfold spend
      split
      · rfl
      · rw [← hclear]
    · simp [spend, hpins, hpassed]
  refine ⟨k, bm.afterTurns k, frame, hbound, hloop, hloop _ hbound, rfl, ?_, hframe, hstopped,
    hpins, rfl, afterTurns_length bm k, hframes, ?_⟩
  · rw [afterTurns_length]
    exact position_lt hclock k
  · intro hset other hmem hother
    rcases hspent with hclear | hpassed
    · rw [hset] at hclear
      cases hclear
    · exact secondChance_of_late_stop hclock hpassed hfirst hmem hother

/-- The clock on a pinned frame, the two others unpinned with their bits set: it
takes the first of them on its second round. -/
theorem getUnusedPage_clock_second_round :
    let frame (pins : Nat) : Page :=
      { pageId := ⟨⟨0⟩, 0⟩, bytes := fun _ => 0, pins := pins, secondChance := true,
        dirty := false }
    let bm : BufferManager :=
      { clock := 0, frames := [frame 1, frame 0, frame 0], pageMap := fun _ => none }
    ∃ bm', bm.getUnusedPage = some bm' ∧ bm'.clock < bm'.frames.length := by
  intro frame bm
  obtain ⟨k, bm', _, _, _, hget, _, hlt, _⟩ :=
    getUnusedPage_clock bm (by decide) ⟨frame 0, by simp [bm], rfl⟩
  exact ⟨bm', hget, hlt⟩

end Iic3413Db.System.BufferManager
