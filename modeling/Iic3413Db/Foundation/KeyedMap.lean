/-
  Foundation/KeyedMap.lean --- finite maps from a linear order, as the list of
  their entries in the order of the keys.

  This is what iterating over a `std::map` shows.  An entry contains its key, and
  `insert` keeps the entry that is already there.
-/
import Mathlib.Data.List.Pairwise
import Mathlib.Order.Lattice
import Mathlib.Tactic

set_option autoImplicit false

namespace Iic3413Db.Foundation

/-- Entries in strictly increasing order of their keys. -/
structure KeyedMap {α κ : Type} [LinearOrder κ] (key : α → κ) where
  entries : List α
  sorted : entries.Pairwise fun x y => key x < key y

namespace KeyedMap

variable {α κ : Type} [LinearOrder κ] {key : α → κ}

theorem ext {m m' : KeyedMap key} (h : m.entries = m'.entries) : m = m' := by
  cases m
  cases m'
  cases h
  rfl

/-- The map without entries. -/
def empty : KeyedMap key := ⟨[], .nil⟩

@[simp] theorem empty_entries : (empty : KeyedMap key).entries = [] := rfl

/-- Put an entry in its place, unless its key is taken. -/
def insertEntry (key : α → κ) (a : α) : List α → List α
  | [] => [a]
  | x :: xs =>
      if key a < key x then a :: x :: xs
      else if key a = key x then x :: xs
      else x :: insertEntry key a xs

theorem mem_insertEntry {a x : α} : ∀ {xs : List α}, xs.Pairwise (fun x y => key x < key y) →
    (x ∈ insertEntry key a xs ↔ x ∈ xs ∨ x = a ∧ ∀ y ∈ xs, key y ≠ key a) := by
  intro xs
  induction xs with
  | nil => simp [insertEntry]
  | cons z zs ih =>
      intro hsorted
      obtain ⟨hz, hzs⟩ := List.pairwise_cons.mp hsorted
      unfold insertEntry
      split
      · rename_i hlt
        have hfree : ∀ y ∈ z :: zs, key y ≠ key a := by
          intro y hy
          rcases List.mem_cons.mp hy with rfl | hy
          · exact ne_of_gt hlt
          · exact ne_of_gt (lt_trans hlt (hz y hy))
        rw [List.mem_cons]
        tauto
      · split
        · rename_i heq
          have htaken : ¬ ∀ y ∈ z :: zs, key y ≠ key a :=
            fun h => h z List.mem_cons_self heq.symm
          tauto
        · rename_i hne
          have hkey : key z ≠ key a := fun h => hne h.symm
          rw [List.mem_cons, ih hzs, List.mem_cons, List.forall_mem_cons]
          tauto

theorem pairwise_insertEntry {a : α} : ∀ {xs : List α},
    xs.Pairwise (fun x y => key x < key y) →
    (insertEntry key a xs).Pairwise fun x y => key x < key y := by
  intro xs
  induction xs with
  | nil => simp [insertEntry]
  | cons z zs ih =>
      intro hsorted
      obtain ⟨hz, hzs⟩ := List.pairwise_cons.mp hsorted
      unfold insertEntry
      split
      · rename_i hlt
        refine .cons (fun y hy => ?_) hsorted
        rcases List.mem_cons.mp hy with rfl | hy
        · exact hlt
        · exact lt_trans hlt (hz y hy)
      · split
        · exact hsorted
        · rename_i hle hne
          refine .cons (fun y hy => ?_) (ih hzs)
          rcases (mem_insertEntry hzs).mp hy with hy | ⟨rfl, _⟩
          · exact hz y hy
          · exact lt_of_le_of_ne (not_lt.mp hle) (Ne.symm hne)

/-- `map.insert`. -/
def insert (m : KeyedMap key) (a : α) : KeyedMap key :=
  ⟨insertEntry key a m.entries, pairwise_insertEntry m.sorted⟩

theorem mem_insert {m : KeyedMap key} {a x : α} :
    x ∈ (m.insert a).entries ↔ x ∈ m.entries ∨ x = a ∧ ∀ y ∈ m.entries, key y ≠ key a :=
  mem_insertEntry m.sorted

/-- An entry whose key is above all others comes last. -/
theorem insert_entries_last {m : KeyedMap key} {a : α} (h : ∀ x ∈ m.entries, key x < key a) :
    (m.insert a).entries = m.entries ++ [a] := by
  obtain ⟨xs, hsorted⟩ := m
  show insertEntry key a xs = xs ++ [a]
  induction xs with
  | nil => rfl
  | cons z zs ih =>
      have hz : key z < key a := h z List.mem_cons_self
      rw [insertEntry, if_neg (not_lt_of_gt hz), if_neg (ne_of_gt hz),
        ih (List.pairwise_cons.mp hsorted).2 fun x hx => h x (List.mem_cons_of_mem z hx)]
      rfl

/-- Change the entries, but no key. -/
def map (m : KeyedMap key) (f : α → α) (hf : ∀ x, key (f x) = key x) : KeyedMap key :=
  ⟨m.entries.map f, by
    rw [List.pairwise_map]
    exact m.sorted.imp fun hlt => by rwa [hf, hf]⟩

theorem nodup_keys (m : KeyedMap key) : (m.entries.map key).Nodup := by
  rw [List.Nodup, List.pairwise_map]
  exact m.sorted.imp fun hlt => ne_of_lt hlt

end KeyedMap

end Iic3413Db.Foundation
