/-
  Exceptions.lean --- how a call can end other than by returning.

  `exceptions/exceptions.h` declares the exception classes of the query layer;
  the storage layer throws `std::runtime_error`.  A failed `assert` and an access
  outside an array have no exception object: they are the first two constructors,
  and every model function that reaches one stops there.
-/

set_option autoImplicit false

namespace Iic3413Db

/-- The ways a modelled call can fail. -/
inductive Fault where
  /-- a failed `assert` -/
  | assertFailed (msg : String)
  /-- an index outside its array, a null dereference, a moved-from pointer -/
  | undefinedBehaviour (what : String)
  /-- `std::runtime_error` -/
  | runtimeError (msg : String)
  /-- `QueryParsingException` -/
  | queryParsingException (msg : String)
  /-- `QueryException` -/
  | queryException (msg : String)
  /-- `TransactionAbortException` -/
  | transactionAbortException (msg : String)
  /-- `NotImplementedException` -/
  | notImplementedException (msg : String)
  deriving DecidableEq, Repr

namespace Fault

/-- A C++ exception leaves the call. -/
def isException : Fault → Bool
  | .assertFailed _ | .undefinedBehaviour _ => false
  | _ => true

/-- `class IIC3413DBException` and its subclasses. -/
def isIIC3413DBException : Fault → Bool
  | .queryParsingException _ | .queryException _ | .transactionAbortException _
  | .notImplementedException _ => true
  | _ => false

end Fault

/-- A computation that returns or fails. -/
abbrev Outcome (α : Type) : Type := Except Fault α

/-- The call throws. -/
def Outcome.Throws {α : Type} (o : Outcome α) : Prop := ∃ e, o = .error e ∧ e.isException = true

@[simp] theorem Outcome.ok_bind {α β : Type} (a : α) (f : α → Outcome β) :
    ((.ok a : Outcome α) >>= f) = f a := by
  simp only [bind, Except.bind]

@[simp] theorem Outcome.error_bind {α β : Type} (e : Fault) (f : α → Outcome β) :
    ((.error e : Outcome α) >>= f) = .error e := by
  simp only [bind, Except.bind]

theorem Outcome.of_bind_ok {α β : Type} {x : Outcome α} {f : α → Outcome β} {b : β}
    (h : x >>= f = .ok b) : ∃ a, x = .ok a ∧ f a = .ok b := by
  cases x with
  | ok a => exact ⟨a, rfl, h⟩
  | error e =>
      rw [Outcome.error_bind] at h
      cases h

theorem Outcome.of_bind_error {α β : Type} {x : Outcome α} {f : α → Outcome β} {e : Fault}
    (h : x >>= f = .error e) : x = .error e ∨ ∃ a, x = .ok a ∧ f a = .error e := by
  cases x with
  | ok a => exact .inr ⟨a, rfl, h⟩
  | error e' => exact .inl (congrArg Except.error (Except.error.inj h))

/-- What holds of the value, when there is one. -/
def Outcome.Ensures {α : Type} (P : α → Prop) (x : Outcome α) : Prop := ∀ a, x = .ok a → P a

theorem Outcome.Ensures.ok {α : Type} {P : α → Prop} {a : α} (h : P a) :
    Outcome.Ensures P (.ok a) := by
  intro b hb
  obtain rfl := Except.ok.inj hb
  exact h

theorem Outcome.Ensures.error {α : Type} {P : α → Prop} (e : Fault) :
    Outcome.Ensures P (.error e) := fun _ h => nomatch h

theorem Outcome.Ensures.bind {α β : Type} {P : α → Prop} {Q : β → Prop} {x : Outcome α}
    {f : α → Outcome β} (h : Outcome.Ensures P x) (hf : ∀ a, P a → Outcome.Ensures Q (f a)) :
    Outcome.Ensures Q (x >>= f) := by
  intro b hb
  obtain ⟨a, ha, hfa⟩ := Outcome.of_bind_ok hb
  exact hf a (h a ha) b hfa

/-- Two computations fail alike, or return related values. -/
inductive Outcome.Lift {α β : Type} (R : α → β → Prop) : Outcome α → Outcome β → Prop
  | ok {a : α} {b : β} (h : R a b) : Outcome.Lift R (.ok a) (.ok b)
  | error (e : Fault) : Outcome.Lift R (.error e) (.error e)

theorem Outcome.Lift.bind {α β α' β' : Type} {R : α → β → Prop} {S : α' → β' → Prop}
    {x : Outcome α} {y : Outcome β} {f : α → Outcome α'} {g : β → Outcome β'}
    (h : Outcome.Lift R x y) (hfg : ∀ a b, R a b → Outcome.Lift S (f a) (g b)) :
    Outcome.Lift S (x >>= f) (y >>= g) := by
  cases h with
  | ok hab => exact hfg _ _ hab
  | error e => exact .error e

theorem Outcome.Lift.rfl {α : Type} {R : α → α → Prop} (hR : ∀ a, R a a) (x : Outcome α) :
    Outcome.Lift R x x := by
  cases x with
  | ok a => exact .ok (hR a)
  | error e => exact .error e

end Iic3413Db
