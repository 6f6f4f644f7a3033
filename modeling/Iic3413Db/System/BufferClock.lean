/-
  System/BufferClock.lean --- the replacement clock of `get_unused_page`.

  Two facts about the loop, each by induction on its fuel.  `loop_spec`: a call
  that returns has the clock on an unpinned frame with its second chance spent,
  and has changed nothing but second-chance bits.  `loop_returns`: the fuel
  needed to reach an unpinned frame `j` is its distance ahead of the clock, plus
  one turn if its bit is set; each pass of the loop body lowers that number, so
  two turns always suffice.
-/
import Iic3413Db.System.BufferManager

set_option autoImplicit false

namespace Iic3413Db.System.BufferManager

open Iic3413Db.Foundation Iic3413Db.Storage

/-- `g` is `f`, up to the second-chance bit. -/
def SameButChance (f g : Page) : Prop := g = { f with secondChance := g.secondChance }

theorem SameButChance.refl (f : Page) : SameButChance f f := rfl

theorem SameButChance.trans {f g h : Page} (hfg : SameButChance f g)
    (hgh : SameButChance g h) : SameButChance f h := by
  unfold SameButChance at *
  rw [hgh, hfg]

/-- `bm'` is `bm` with the clock moved and some second-chance bits cleared. -/
structure Swept (bm bm' : BufferManager) : Prop where
  frames : List.Forall₂ SameButChance bm.frames bm'.frames
  pageMap : bm'.pageMap = bm.pageMap

theorem Swept.refl (bm : BufferManager) : Swept bm bm :=
  ⟨List.forall₂_same.mpr fun f _ => .refl f, rfl⟩

theorem Swept.trans {a b c : BufferManager} (h : Swept a b) (h' : Swept b c) : Swept a c where
  frames := by
    have htrans : ∀ {l m n : List Page}, List.Forall₂ SameButChance l m →
        List.Forall₂ SameButChance m n → List.Forall₂ SameButChance l n := by
      intro l m n hlm
      induction hlm generalizing n with
      | nil => intro hmn; cases hmn; exact .nil
      | cons hfg _ ih =>
          intro hmn
          cases hmn with
          | cons hgh hrest => exact .cons (hfg.trans hgh) (ih hrest)
    exact htrans h.frames h'.frames
  pageMap := h'.pageMap.trans h.pageMap

theorem Swept.length {a b : BufferManager} (h : Swept a b) :
    b.frames.length = a.frames.length := h.frames.length_eq.symm

/-- The frame at `i` before and after a sweep. -/
theorem Swept.getElem? {a b : BufferManager} (h : Swept a b) {i : Nat} {g : Page}
    (hg : b.frames[i]? = some g) : ∃ f, a.frames[i]? = some f ∧ SameButChance f g := by
  obtain ⟨hi, rfl⟩ := List.getElem?_eq_some_iff.mp hg
  have hi' : i < a.frames.length := by rw [← h.length]; exact hi
  exact ⟨a.frames[i], List.getElem?_eq_getElem hi', h.frames.get hi' hi⟩

/-- Clearing one bit and moving the clock is a sweep. -/
theorem swept_clear_advance {bm : BufferManager} {f : Page}
    (hf : bm.frames[bm.clock]? = some f) :
    Swept bm (bm.setFrame bm.clock { f with secondChance := false }).advance where
  frames := by
    obtain ⟨hlt, hget⟩ := List.getElem?_eq_some_iff.mp hf
    rw [List.forall₂_iff_get]
    refine ⟨by simp [advance, setFrame], ?_⟩
    intro i hi hi'
    simp only [advance, setFrame, List.get_eq_getElem, List.getElem_set]
    split
    · rename_i heq
      subst heq
      rw [hget]
      rfl
    · exact .refl _
  pageMap := rfl

theorem swept_advance (bm : BufferManager) : Swept bm bm.advance :=
  ⟨(Swept.refl bm).frames, rfl⟩

@[simp] theorem advance_frames (bm : BufferManager) : bm.advance.frames = bm.frames := rfl

@[simp] theorem setFrame_length (bm : BufferManager) (i : Nat) (page : Page) :
    (bm.setFrame i page).frames.length = bm.frames.length := List.length_set

@[simp] theorem evict_frames (bm : BufferManager) (f : Page) :
    (bm.evict f).frames = bm.frames := by
  unfold evict
  split <;> rfl

@[simp] theorem evict_clock (bm : BufferManager) (f : Page) : (bm.evict f).clock = bm.clock := by
  unfold evict
  split <;> rfl

theorem evict_eq (bm : BufferManager) (f : Page) :
    bm.evict f = { bm with pageMap := (bm.evict f).pageMap } := by
  unfold evict
  split <;> rfl

theorem evict_pageMap (bm : BufferManager) (f : Page) :
    (bm.evict f).pageMap = if f.pageId.fileId ≠ FileId.unassigned
      then bm.pageMap.erase f.pageId else bm.pageMap := by
  unfold evict
  split <;> rfl

/-- Where the clock goes next does not depend on the frames' contents. -/
theorem setFrame_advance_clock (bm : BufferManager) (i : Nat) (page : Page) :
    (bm.setFrame i page).advance.clock = bm.advance.clock := by
  unfold advance
  dsimp only
  rw [setFrame_length]
  rfl

theorem advance_clock_lt {bm : BufferManager} (h : 0 < bm.frames.length) :
    bm.advance.clock < bm.frames.length := by
  unfold advance
  dsimp only
  split <;> omega

/-- What a returning call of the loop leaves: the clock on a frame that may be
reassigned, everything else up to second-chance bits as before. -/
theorem loop_spec : ∀ (fuel : Nat) (bm bm' : BufferManager),
    getUnusedPageLoop fuel bm = some bm' →
    Swept bm bm' ∧ ∃ f, bm'.frames[bm'.clock]? = some f ∧ f.pins = 0 ∧ f.secondChance = false := by
  intro fuel
  induction fuel with
  | zero => intro bm bm' h; simp [getUnusedPageLoop] at h
  | succ fuel ih =>
      intro bm bm' h
      rw [getUnusedPageLoop] at h
      split at h
      · cases h
      · rename_i f hf
        split at h
        · rename_i hpins
          split at h
          · rename_i hchance
            cases h
            exact ⟨Swept.refl bm, f, hf, hpins, hchance⟩
          · obtain ⟨hsw, hend⟩ := ih _ _ h
            exact ⟨(swept_clear_advance hf).trans hsw, hend⟩
        · obtain ⟨hsw, hend⟩ := ih _ _ h
          exact ⟨(swept_advance bm).trans hsw, hend⟩

/-- How far ahead of a clock over `n` frames the frame `j` is. -/
def distance (n clock j : Nat) : Nat :=
  if clock ≤ j then j - clock else j + n - clock

/-- The loop returns once the fuel exceeds the distance to an unpinned frame,
plus a turn if that frame still has its second chance. -/
theorem loop_returns : ∀ (fuel : Nat) (bm : BufferManager) (j : Nat) (f : Page),
    bm.clock < bm.frames.length → bm.frames[j]? = some f → f.pins = 0 →
    distance bm.frames.length bm.clock j + (if f.secondChance then bm.frames.length else 0) < fuel →
    ∃ bm', getUnusedPageLoop fuel bm = some bm' := by
  intro fuel
  induction fuel with
  | zero => intro bm j f _ _ _ hfuel; omega
  | succ fuel ih =>
      intro bm j f hclock hj hpins hfuel
      obtain ⟨hjlt, hjget⟩ := List.getElem?_eq_some_iff.mp hj
      have hadv : bm.advance.clock < bm.frames.length := advance_clock_lt (by omega)
      obtain ⟨c, hc⟩ : ∃ c, bm.frames[bm.clock]? = some c :=
        ⟨_, List.getElem?_eq_getElem hclock⟩
      -- moving the clock off any frame but `j` brings `j` one closer
      have hcloser : bm.clock ≠ j → distance bm.frames.length bm.advance.clock j + 1 =
          distance bm.frames.length bm.clock j := by
        intro hne
        simp only [distance, advance]
        split <;> split <;> split <;> omega
      rw [getUnusedPageLoop, hc]
      dsimp only
      by_cases hat : bm.clock = j
      · have hcf : c = f := by rw [hat, hj] at hc; exact (Option.some.inj hc).symm
        subst hcf
        rw [if_pos hpins]
        by_cases hchance : c.secondChance = false
        · exact ⟨bm, by rw [if_pos hchance]⟩
        · -- the bit of `j` itself is cleared: one turn is left to come back to it
          rw [if_neg hchance]
          have hfull : distance bm.frames.length bm.advance.clock j < bm.frames.length := by
            unfold distance
            split <;> omega
          have htrue : c.secondChance = true := by simpa using hchance
          refine ih _ j { c with secondChance := false } ?_ ?_ hpins ?_
          · rw [setFrame_advance_clock, advance_frames, setFrame_length]
            exact hadv
          · simp [setFrame, hat, hjlt]
          · rw [setFrame_advance_clock, advance_frames, setFrame_length]
            simp only [htrue, if_true] at hfuel
            simp only [Bool.false_eq_true, if_false]
            omega
      · have hd := hcloser hat
        have hgo : ∃ bm', getUnusedPageLoop fuel bm.advance = some bm' := by
          refine ih _ j f (by simpa using hadv) (by simpa using hj) hpins ?_
          rw [advance_frames]
          omega
        split
        · split
          · exact ⟨_, rfl⟩
          · refine ih _ j f ?_ ?_ hpins ?_
            · rw [setFrame_advance_clock, advance_frames, setFrame_length]
              exact hadv
            · simpa [setFrame, List.getElem?_set_ne hat] using hj
            · rw [setFrame_advance_clock, advance_frames, setFrame_length]
              omega
        · exact hgo

/-- `get_unused_page` returns whenever some frame is unpinned. -/
theorem getUnusedPage_returns {bm : BufferManager} {j : Nat} {f : Page}
    (hclock : bm.clock < bm.frames.length) (hj : bm.frames[j]? = some f) (hpins : f.pins = 0) :
    ∃ bm', bm.getUnusedPage = some bm' := by
  obtain ⟨hjlt, _⟩ := List.getElem?_eq_some_iff.mp hj
  refine loop_returns _ bm j f hclock hj hpins ?_
  have hdist : distance bm.frames.length bm.clock j < bm.frames.length := by
    unfold distance
    split <;> omega
  split <;> omega

theorem getUnusedPage_spec {bm bm' : BufferManager} (h : bm.getUnusedPage = some bm') :
    Swept bm bm' ∧ ∃ f, bm'.frames[bm'.clock]? = some f ∧ f.pins = 0 ∧ f.secondChance = false :=
  loop_spec _ _ _ h

end Iic3413Db.System.BufferManager
