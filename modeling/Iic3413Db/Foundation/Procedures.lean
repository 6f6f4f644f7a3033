/-
  Foundation/Procedures.lean --- calls that change a state, may throw, and may need more fuel.

  The state a call leaves behind is there when it throws, too.  Loops take a number that bounds
  their iterations and those of the calls they make; `Ends` says that every number from some on
  gives the same result.  Nothing here mentions the database.
-/
import Mathlib.Logic.Basic

set_option autoImplicit false

namespace Iic3413Db.Foundation

/-- A call on a state `σ`; `none` is a call that has not come back. -/
def Procedure (σ ε α : Type) : Type := σ → Option (Except ε α) × σ

namespace Procedure

variable {σ ε α β : Type}

/-- Return a value. -/
def done (a : α) : Procedure σ ε α := fun s => (some (.ok a), s)

/-- The call goes on with what `x` returns. -/
def andThen (x : Procedure σ ε α) (f : α → Procedure σ ε β) : Procedure σ ε β := fun s =>
  match x s with
  | (some (.ok a), s) => f a s
  | (some (.error e), s) => (some (.error e), s)
  | (none, s) => (none, s)

instance : Monad (Procedure σ ε) where
  pure := done
  bind := andThen

/-- A loop that goes on. -/
def outOfFuel : Procedure σ ε α := fun s => (none, s)

/-- A call that reads the state. -/
def ofExcept (x : σ → Except ε α) : Procedure σ ε α := fun s => (some (x s), s)

/-- A loop that reads the state. -/
def ofLoop (x : σ → Except ε (Option α)) : Procedure σ ε α := fun s =>
  match x s with
  | .error e => (some (.error e), s)
  | .ok none => (none, s)
  | .ok (some a) => (some (.ok a), s)

section Rules

variable {x : Procedure σ ε α} {f : α → Procedure σ ε β} {s s' : σ} {a : α} {e : ε}

@[simp] theorem pure_apply (a : α) (s : σ) : (pure a : Procedure σ ε α) s = (some (.ok a), s) := rfl

theorem bind_ok (h : x s = (some (.ok a), s')) : (x >>= f) s = f a s' := by
  show andThen x f s = _
  rw [andThen, h]

theorem bind_error (h : x s = (some (.error e), s')) : (x >>= f) s = (some (.error e), s') := by
  show andThen x f s = _
  rw [andThen, h]

theorem bind_none (h : x s = (none, s')) : (x >>= f) s = (none, s') := by
  show andThen x f s = _
  rw [andThen, h]

theorem ofExcept_eq {y : σ → Except ε α} {r : Except ε α} (h : y s = r) :
    ofExcept y s = (some r, s) := by
  rw [ofExcept, h]

theorem ofLoop_ok {y : σ → Except ε (Option α)} (h : y s = .ok (some a)) :
    ofLoop y s = (some (.ok a), s) := by
  rw [ofLoop, h]

end Rules

/-! ## What a call leaves alone -/

/-- The call changes the state, but not this part of it. -/
def Preserves {γ : Type} (part : σ → γ) (x : Procedure σ ε α) : Prop := ∀ s, part (x s).2 = part s

section Preserves

variable {γ : Type} {part : σ → γ} {x : Procedure σ ε α} {f : α → Procedure σ ε β}

theorem Preserves.pure (a : α) : Preserves part (pure a : Procedure σ ε α) := fun _ => rfl

theorem Preserves.bind (hx : Preserves part x) (hf : ∀ a, Preserves part (f a)) : Preserves part (x >>= f) := by
  intro s
  cases hrun : x s with
  | mk r s₁ =>
      have hfirst := hx s
      rw [hrun] at hfirst
      cases r with
      | none => rwa [bind_none hrun]
      | some r =>
          cases r with
          | error e => rwa [bind_error hrun]
          | ok a => rw [bind_ok hrun, hf a s₁, hfirst]

theorem Preserves.outOfFuel : Preserves part (outOfFuel : Procedure σ ε α) := fun _ => rfl

theorem Preserves.ofExcept (y : σ → Except ε α) : Preserves part (ofExcept y) := fun _ => rfl

theorem Preserves.ofLoop (y : σ → Except ε (Option α)) : Preserves part (ofLoop y) := by
  intro s
  unfold Procedure.ofLoop
  split <;> rfl

end Preserves

/-! ## Enough fuel -/

/-- With enough fuel the call comes back with `r` and leaves `s'`. -/
def Ends (x : Nat → Procedure σ ε α) (s : σ) (r : Except ε α) (s' : σ) : Prop :=
  ∃ needed, ∀ fuel, needed ≤ fuel → x fuel s = (some r, s')

/-- With enough fuel the call throws a bad error, if it comes back. -/
def Breaks (x : Nat → Procedure σ ε α) (s : σ) (bad : ε → Prop) : Prop :=
  ∃ needed, ∀ fuel, needed ≤ fuel → ∀ r, (x fuel s).1 = some r → ∃ e, r = .error e ∧ bad e

/-- With enough fuel `x` goes on from `s` as `y` does from `s'`, with less of it. -/
def Leads {β : Type} (x : Nat → Procedure σ ε β) (s : σ) (y : Nat → Procedure σ ε β) (s' : σ) :
    Prop :=
  ∃ less needed, ∀ fuel, needed ≤ fuel → x (fuel + less) s = y fuel s'

section Ends

variable {x y z : Nat → Procedure σ ε α} {f : Nat → α → Procedure σ ε β} {s s₁ s₂ s' : σ} {a : α}
  {e : ε} {r : Except ε α} {bad : ε → Prop}

theorem Ends.of_eq (h : ∀ fuel, x fuel s = (some r, s')) : Ends x s r s' :=
  ⟨0, fun fuel _ => h fuel⟩

theorem Ends.unique {r' : Except ε α} {t : σ} (h : Ends x s r s') (h' : Ends x s r' t) :
    r = r' ∧ s' = t := by
  obtain ⟨n, h⟩ := h
  obtain ⟨m, h'⟩ := h'
  have heq := (h (max n m) (by omega)).symm.trans (h' (max n m) (by omega))
  cases heq
  exact ⟨rfl, rfl⟩

/-- A call that ends may have broken off. -/
theorem Breaks.of_ends (h : Breaks x s bad) (h' : Ends x s r s') : ∃ e, r = .error e ∧ bad e := by
  obtain ⟨n, h⟩ := h
  obtain ⟨m, h'⟩ := h'
  exact h (max n m) (by omega) r (by rw [h' (max n m) (by omega)])

/-- A call that ends leaves alone what it does with any fuel. -/
theorem Ends.preserves {γ : Type} {part : σ → γ} (h : Ends x s r s')
    (hx : ∀ fuel, Preserves part (x fuel)) : part s' = part s := by
  obtain ⟨n, h⟩ := h
  have hpart := hx n s
  rwa [h n (Nat.le_refl n)] at hpart

theorem Ends.breaks (h : Ends x s (.error e) s') (hbad : bad e) : Breaks x s bad := by
  obtain ⟨n, h⟩ := h
  refine ⟨n, fun fuel hfuel r hr => ⟨e, ?_, hbad⟩⟩
  rw [h fuel hfuel] at hr
  exact (Option.some.inj hr).symm

/-! ## What follows a call -/

theorem Ends.bind (h : Ends x s (.ok a) s₁) :
    Leads (fun fuel => x fuel >>= f fuel) s (fun fuel => f fuel a) s₁ := by
  obtain ⟨n, h⟩ := h
  exact ⟨0, n, fun fuel hfuel => bind_ok (h fuel hfuel)⟩

theorem Ends.bind_error (h : Ends x s (.error e) s') :
    Ends (fun fuel => x fuel >>= f fuel) s (.error e) s' := by
  obtain ⟨n, h⟩ := h
  exact ⟨n, fun fuel hfuel => Procedure.bind_error (h fuel hfuel)⟩

theorem Breaks.bind (h : Breaks x s bad) : Breaks (fun fuel => x fuel >>= f fuel) s bad := by
  obtain ⟨n, h⟩ := h
  refine ⟨n, fun fuel hfuel r hr => ?_⟩
  dsimp only at hr
  have hx := h fuel hfuel
  cases hrun : x fuel s with
  | mk res s₁ =>
      rw [hrun] at hx
      cases res with
      | none =>
          rw [bind_none hrun] at hr
          cases hr
      | some res =>
          obtain ⟨e, rfl, hbad⟩ := hx res rfl
          rw [Procedure.bind_error hrun] at hr
          exact ⟨e, (Option.some.inj hr).symm, hbad⟩

theorem Leads.refl : Leads x s x s := ⟨0, 0, fun _ _ => rfl⟩

/-- One iteration of a loop. -/
theorem Leads.of_succ (h : ∀ fuel, x (fuel + 1) s = y fuel s') : Leads x s y s' :=
  ⟨1, 0, fun fuel _ => h fuel⟩

theorem Leads.trans (h : Leads x s y s₁) (h' : Leads y s₁ z s₂) : Leads x s z s₂ := by
  obtain ⟨d, n, h⟩ := h
  obtain ⟨d', m, h'⟩ := h'
  refine ⟨d' + d, max n m, fun fuel hfuel => ?_⟩
  rw [← Nat.add_assoc, h _ (by omega), h' _ (by omega)]

theorem Leads.ends (h : Leads x s y s₁) (h' : Ends y s₁ r s') : Ends x s r s' := by
  obtain ⟨d, n, h⟩ := h
  obtain ⟨m, h'⟩ := h'
  refine ⟨max n m + d, fun fuel hfuel => ?_⟩
  obtain ⟨fuel, rfl⟩ := Nat.exists_eq_add_of_le' (show d ≤ fuel by omega)
  rw [h _ (by omega), h' _ (by omega)]

theorem Leads.breaks (h : Leads x s y s₁) (h' : Breaks y s₁ bad) : Breaks x s bad := by
  obtain ⟨d, n, h⟩ := h
  obtain ⟨m, h'⟩ := h'
  refine ⟨max n m + d, fun fuel hfuel => ?_⟩
  obtain ⟨fuel, rfl⟩ := Nat.exists_eq_add_of_le' (show d ≤ fuel by omega)
  rw [h _ (by omega)]
  exact h' _ (by omega)

end Ends

end Procedure

end Iic3413Db.Foundation
