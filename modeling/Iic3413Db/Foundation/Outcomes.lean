/-
  Foundation/Outcomes.lean --- loops that can fail, as `mapM` over a list.
-/
import Iic3413Db.Exceptions
import Mathlib.Data.List.Forall2

set_option autoImplicit false

namespace Iic3413Db.Outcome

variable {α β : Type} {f : α → Outcome β} {as : List α} {bs : List β}

theorem mapM_cons (f : α → Outcome β) (a : α) (as : List α) :
    (a :: as).mapM f = f a >>= fun b => as.mapM f >>= fun bs => .ok (b :: bs) := by
  rw [List.mapM_cons]
  rfl

/-- A loop that ends has a result for each element. -/
theorem forall₂_of_mapM (h : as.mapM f = .ok bs) :
    List.Forall₂ (fun a b => f a = .ok b) as bs := by
  induction as generalizing bs with
  | nil =>
      cases h
      exact .nil
  | cons a as ih =>
      rw [mapM_cons] at h
      obtain ⟨b, hb, h⟩ := of_bind_ok h
      obtain ⟨bs', hbs, h⟩ := of_bind_ok h
      cases h
      exact .cons hb (ih hbs)

theorem mapM_of_forall₂ (h : List.Forall₂ (fun a b => f a = .ok b) as bs) :
    as.mapM f = .ok bs := by
  induction h with
  | nil => rfl
  | cons hb _ ih => rw [mapM_cons, hb, ok_bind, ih, ok_bind]

/-- A result is that of an element. -/
theorem mem_of_mapM (h : as.mapM f = .ok bs) {b : β} (hb : b ∈ bs) : ∃ a ∈ as, f a = .ok b := by
  have hforall := forall₂_of_mapM h
  clear h
  induction hforall with
  | nil => cases hb
  | @cons a b' as bs ha _ ih =>
      rcases List.mem_cons.mp hb with rfl | hb
      · exact ⟨a, List.mem_cons_self, ha⟩
      · obtain ⟨a', ha', hb'⟩ := ih hb
        exact ⟨a', List.mem_cons_of_mem a ha', hb'⟩

/-- The result of an element is there. -/
theorem exists_of_mapM (h : as.mapM f = .ok bs) {a : α} (ha : a ∈ as) : ∃ b ∈ bs, f a = .ok b := by
  have hforall := forall₂_of_mapM h
  clear h
  induction hforall with
  | nil => cases ha
  | @cons a' b as bs hb _ ih =>
      rcases List.mem_cons.mp ha with rfl | ha
      · exact ⟨b, List.mem_cons_self, hb⟩
      · obtain ⟨b', hb', hok⟩ := ih ha
        exact ⟨b', List.mem_cons_of_mem b hb', hok⟩

/-- A loop ends when each of its turns does. -/
theorem mapM_ok_iff : (∃ bs, as.mapM f = .ok bs) ↔ ∀ a ∈ as, ∃ b, f a = .ok b := by
  induction as with
  | nil => exact iff_of_true ⟨[], rfl⟩ fun a ha => nomatch ha
  | cons a as ih =>
      rw [List.forall_mem_cons, ← ih]
      constructor
      · rintro ⟨bs, h⟩
        rw [mapM_cons] at h
        obtain ⟨b, hb, h⟩ := of_bind_ok h
        obtain ⟨bs', hbs, _⟩ := of_bind_ok h
        exact ⟨⟨b, hb⟩, bs', hbs⟩
      · rintro ⟨⟨b, hb⟩, bs, hbs⟩
        exact ⟨b :: bs, by rw [mapM_cons, hb, ok_bind, hbs, ok_bind]⟩

/-- The fault of a loop is that of its first turn that fails. -/
theorem mapM_error {e : Fault} (h : as.mapM f = .error e) :
    ∃ before a after, as = before ++ a :: after ∧ (∃ bs, before.mapM f = .ok bs) ∧
      f a = .error e := by
  induction as with
  | nil => cases h
  | cons a as ih =>
      rw [mapM_cons] at h
      rcases of_bind_error h with ha | ⟨b, hb, h⟩
      · exact ⟨[], a, as, rfl, ⟨[], rfl⟩, ha⟩
      rcases of_bind_error h with has | ⟨bs, _, h⟩
      · obtain ⟨before, x, after, rfl, ⟨bs, hbs⟩, hx⟩ := ih has
        refine ⟨a :: before, x, after, rfl, ⟨b :: bs, ?_⟩, hx⟩
        rw [mapM_cons, hb, ok_bind, hbs, ok_bind]
      · cases h

/-- A fault that neither part has. -/
theorem bind_ne_error {γ : Type} {x : Outcome α} {g : α → Outcome γ} {e : Fault}
    (hx : x ≠ .error e) (hg : ∀ a, x = .ok a → g a ≠ .error e) : x >>= g ≠ .error e := by
  intro h
  rcases of_bind_error h with h | ⟨a, ha, h⟩
  · exact hx h
  · exact hg a ha h

end Iic3413Db.Outcome
