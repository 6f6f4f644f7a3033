/-
  Foundation/Worklist.lean --- breadth-first search with a set of the elements found and a queue.

  The search ends once it has had a turn for every element it can reach, and the set is then
  the reflexive and transitive closure of the successors.  Nothing here mentions the database.
-/
import Mathlib.Data.List.Perm.Subperm
import Mathlib.Logic.Relation

set_option autoImplicit false

namespace Iic3413Db.Foundation.Worklist

variable {α : Type}

/-- What successors lead to. -/
abbrev Reaches (next : α → List α) : α → α → Prop :=
  Relation.ReflTransGen fun a b => b ∈ next a

/-! ## The search -/

section Search

variable [DecidableEq α]

/-- Insert an element into the set, and push it onto the queue when the set did not have it. -/
def discover (s : List α × List α) (b : α) : List α × List α :=
  if b ∈ s.1 then s else (s.1 ++ [b], s.2 ++ [b])

/-- The search from a set `seen` and a queue; `none` is a search that has not ended. -/
def explore (next : α → List α) : Nat → List α → List α → Option (List α)
  | _, seen, [] => some seen
  | 0, _, _ :: _ => none
  | fuel + 1, seen, a :: pending =>
      let s := (next a).foldl discover (seen, pending)
      explore next fuel s.1 s.2

end Search

variable {next : α → List α} {start a : α} {seen pending bs : List α}

/-! ## A turn -/

theorem foldl_discover [DecidableEq α] (seen pending bs : List α) :
    ∃ found, bs.foldl discover (seen, pending) = (seen ++ found, pending ++ found) ∧
      (∀ x ∈ found, x ∈ bs) ∧ (∀ x ∈ bs, x ∈ seen ++ found) ∧
      (seen.Nodup → (seen ++ found).Nodup) := by
  induction bs generalizing seen pending with
  | nil => exact ⟨[], by simp, by simp, by simp, by simp⟩
  | cons b bs ih =>
      rw [List.foldl_cons, discover]
      split
      · rename_i hb
        obtain ⟨found, heq, hfound, hall, hnodup⟩ := ih seen pending
        refine ⟨found, heq, fun x hx => List.mem_cons_of_mem b (hfound x hx), ?_, hnodup⟩
        intro x hx
        rcases List.mem_cons.mp hx with rfl | hx
        · exact List.mem_append_left found hb
        · exact hall x hx
      · rename_i hb
        obtain ⟨found, heq, hfound, hall, hnodup⟩ := ih (seen ++ [b]) (pending ++ [b])
        refine ⟨b :: found, by simpa using heq, ?_, ?_, ?_⟩
        · intro x hx
          rcases List.mem_cons.mp hx with rfl | hx
          · exact List.mem_cons_self
          · exact List.mem_cons_of_mem b (hfound x hx)
        · intro x hx
          rcases List.mem_cons.mp hx with rfl | hx
          · simp
          · simpa using hall x hx
        · intro hseen
          have hsnoc : (seen ++ [b]).Nodup := by
            refine List.nodup_append.mpr ⟨hseen, List.pairwise_singleton _ b, ?_⟩
            rintro x hx y hy rfl
            exact hb (List.mem_singleton.mp hy ▸ hx)
          simpa using hnodup hsnoc

/-- What holds of the set and the queue before each turn. -/
structure Invariant (next : α → List α) (start : α) (seen pending : List α) : Prop where
  nodup : seen.Nodup
  found : start ∈ seen
  sound : ∀ x ∈ seen, Reaches next start x
  queued : ∀ x ∈ pending, x ∈ seen
  closed : ∀ x ∈ seen, x ∉ pending → ∀ y ∈ next x, y ∈ seen

theorem Invariant.initial (next : α → List α) (start : α) :
    Invariant next start [start] [start] where
  nodup := List.pairwise_singleton _ start
  found := List.mem_singleton_self start
  sound x hx := by
    obtain rfl := List.mem_singleton.mp hx
    exact .refl
  queued _ hx := hx
  closed _ hx hnot := absurd hx hnot

theorem Invariant.turn (h : Invariant next start seen (a :: pending)) {found : List α}
    (hfound : ∀ x ∈ found, x ∈ next a) (hall : ∀ x ∈ next a, x ∈ seen ++ found)
    (hnodup : (seen ++ found).Nodup) :
    Invariant next start (seen ++ found) (pending ++ found) where
  nodup := hnodup
  found := List.mem_append_left found h.found
  sound x hx := by
    rcases List.mem_append.mp hx with hx | hx
    · exact h.sound x hx
    · exact (h.sound a (h.queued a List.mem_cons_self)).tail (hfound x hx)
  queued x hx := by
    rcases List.mem_append.mp hx with hx | hx
    · exact List.mem_append_left found (h.queued x (List.mem_cons_of_mem a hx))
    · exact List.mem_append_right seen hx
  closed := by
    intro x hx hnot y hy
    by_cases hxa : x = a
    · subst hxa
      exact hall y hy
    have hxf : x ∉ found := fun hxf => hnot (List.mem_append_right pending hxf)
    have hxs : x ∈ seen := (List.mem_append.mp hx).resolve_right hxf
    have hxq : x ∉ a :: pending := fun hxq =>
      hnot (List.mem_append_left found ((List.mem_cons.mp hxq).resolve_left hxa))
    exact List.mem_append_left found (h.closed x hxs hxq y hy)

/-- With an empty queue the set is everything that can be reached. -/
theorem Invariant.mem_iff (h : Invariant next start seen []) (x : α) :
    x ∈ seen ↔ Reaches next start x := by
  constructor
  · exact h.sound x
  · intro hreach
    induction hreach with
    | refl => exact h.found
    | tail _ hstep ih => exact h.closed _ ih List.not_mem_nil _ hstep

/-! ## The run -/

variable {domain : List α}

/-- A turn takes one element from the queue, and what it adds is new in the set. -/
theorem explore_ends [DecidableEq α] (hnext : ∀ x ∈ domain, ∀ y ∈ next x, y ∈ domain) {fuel : Nat}
    (h : Invariant next start seen pending) (hseen : ∀ x ∈ seen, x ∈ domain)
    (hfuel : domain.length + pending.length ≤ fuel + seen.length) :
    ∃ res, explore next fuel seen pending = some res ∧ Invariant next start res [] := by
  induction fuel generalizing seen pending with
  | zero =>
      cases pending with
      | nil => exact ⟨seen, rfl, h⟩
      | cons a pending =>
          have hle := (List.subperm_of_subset h.nodup hseen).length_le
          simp only [List.length_cons] at hfuel
          omega
  | succ fuel ih =>
      cases pending with
      | nil => exact ⟨seen, rfl, h⟩
      | cons a pending =>
          obtain ⟨found, heq, hfound, hall, hnodup⟩ := foldl_discover seen pending (next a)
          have ha : a ∈ domain := hseen a (h.queued a List.mem_cons_self)
          have hin : ∀ x ∈ seen ++ found, x ∈ domain := by
            intro x hx
            rcases List.mem_append.mp hx with hx | hx
            · exact hseen x hx
            · exact hnext a ha x (hfound x hx)
          obtain ⟨res, hres, hinv⟩ := ih (h.turn hfound hall (hnodup h.nodup)) hin (by
            simp only [List.length_append, List.length_cons] at hfuel ⊢
            omega)
          exact ⟨res, by rw [explore, heq]; exact hres, hinv⟩

/-- More turns than the search needs change nothing. -/
theorem explore_mono [DecidableEq α] {fuel more : Nat} {res : List α}
    (h : explore next fuel seen pending = some res) (hmore : fuel ≤ more) :
    explore next more seen pending = some res := by
  induction fuel generalizing more seen pending with
  | zero =>
      cases pending with
      | nil =>
          rw [explore] at h ⊢
          exact h
      | cons a pending => cases h
  | succ fuel ih =>
      cases pending with
      | nil =>
          rw [explore] at h ⊢
          exact h
      | cons a pending =>
          obtain ⟨more, rfl⟩ := Nat.exists_eq_add_of_le' (show 1 ≤ more by omega)
          rw [explore] at h ⊢
          exact ih h (by omega)

/-- The search from one element finds what that element reaches. -/
theorem explore_start [DecidableEq α] (hstart : start ∈ domain)
    (hnext : ∀ x ∈ domain, ∀ y ∈ next x, y ∈ domain) :
    ∃ res, (∀ fuel, domain.length ≤ fuel → explore next fuel [start] [start] = some res) ∧
      ∀ x, x ∈ res ↔ Reaches next start x := by
  obtain ⟨res, hres, hinv⟩ := explore_ends hnext (.initial next start)
    (fun x hx => by rwa [List.mem_singleton.mp hx]) (Nat.le_refl _)
  exact ⟨res, fun fuel hfuel => explore_mono hres hfuel, hinv.mem_iff⟩

end Iic3413Db.Foundation.Worklist
