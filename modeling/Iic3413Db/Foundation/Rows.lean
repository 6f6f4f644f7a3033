/-
  Foundation/Rows.lean --- rows as partial maps from keys to values, and products
  of lists of rows.

  Nothing here mentions the database.  A list of rows is a multiset up to `Perm`;
  the product of several lists does not depend on their order when no key belongs
  to two of them.
-/
import Mathlib.Data.List.Pairwise
import Mathlib.Data.List.Perm.Basic

set_option autoImplicit false

namespace Iic3413Db.Foundation

/-- The values of some keys. -/
abbrev Row (κ ν : Type) : Type := κ → Option ν

variable {κ ν : Type}

namespace Row

/-- The row of no key. -/
def nil : Row κ ν := fun _ => none

/-- The keys of two rows; the first decides. -/
def merge (f g : Row κ ν) : Row κ ν := fun k => (f k).or (g k)

/-- No key is in both. -/
def Apart (f g : Row κ ν) : Prop := ∀ k, f k = none ∨ g k = none

/-- The keys a predicate admits. -/
def restrict (p : κ → Bool) (f : Row κ ν) : Row κ ν := fun k => if p k then f k else none

variable {f g h : Row κ ν}

@[simp] theorem merge_nil (f : Row κ ν) : merge f nil = f := by
  funext k
  exact Option.or_none

@[simp] theorem nil_merge (f : Row κ ν) : merge nil f = f := by
  funext k
  exact Option.none_or

theorem merge_assoc (f g h : Row κ ν) : merge (merge f g) h = merge f (merge g h) := by
  funext k
  exact Option.or_assoc ..

theorem Apart.symm (hfg : Apart f g) : Apart g f := fun k => (hfg k).symm

theorem merge_comm (hfg : Apart f g) : merge f g = merge g f := by
  funext k
  rcases hfg k with hf | hg
  · simp [merge, hf]
  · simp [merge, hg]

theorem Apart.merge (hf : Apart f h) (hg : Apart g h) : Apart (Row.merge f g) h := by
  intro k
  rcases hf k with hf | hh
  · rcases hg k with hg | hh
    · exact .inl (by simp [Row.merge, hf, hg])
    · exact .inr hh
  · exact .inr hh

theorem restrict_merge (p : κ → Bool) (f g : Row κ ν) :
    restrict p (merge f g) = merge (restrict p f) (restrict p g) := by
  funext k
  cases hp : p k with
  | true => simp [restrict, merge, hp]
  | false => simp [restrict, merge, hp]

theorem restrict_restrict {p q : κ → Bool} (hpq : ∀ k, p k = true → q k = true)
    (f : Row κ ν) : restrict p (restrict q f) = restrict p f := by
  funext k
  unfold restrict
  split
  · rename_i hp
    rw [if_pos (hpq k hp)]
  · rfl

/-- The first value of each key. -/
def zip [DecidableEq κ] : List κ → List ν → Row κ ν
  | k :: ks, v :: vs => fun x => if x = k then some v else zip ks vs x
  | _, _ => nil

section Zip

variable [DecidableEq κ]

theorem zip_cons (k : κ) (ks : List κ) (v : ν) (vs : List ν) (x : κ) :
    zip (k :: ks) (v :: vs) x = if x = k then some v else zip ks vs x := rfl

theorem zip_append {ks ls : List κ} {vs ws : List ν} (h : vs.length = ks.length) :
    (zip (ks ++ ls) (vs ++ ws) : Row κ ν) = merge (zip ks vs) (zip ls ws) := by
  induction ks generalizing vs with
  | nil =>
      rw [List.length_eq_zero_iff.mp h]
      exact (nil_merge _).symm
  | cons k ks ih =>
      cases vs with
      | nil => cases h
      | cons v vs =>
          funext x
          rw [List.cons_append, List.cons_append, zip_cons, ih (Nat.succ.inj h)]
          by_cases hx : x = k
          · simp [merge, zip_cons, hx]
          · simp [merge, zip_cons, hx]

theorem zip_eq_none {ks : List κ} {vs : List ν} {x : κ} (h : x ∉ ks) :
    (zip ks vs : Row κ ν) x = none := by
  induction ks generalizing vs with
  | nil => rfl
  | cons k ks ih =>
      obtain ⟨hk, hks⟩ := not_or.mp (mt List.mem_cons.mpr h)
      cases vs with
      | nil => rfl
      | cons v vs => rw [zip_cons, if_neg hk, ih hks]

theorem zip_findIdx {ks : List κ} {vs : List ν} {x : κ} {i : Nat} (h : vs.length = ks.length)
    (hi : ks.findIdx? (fun k => decide (k = x)) = some i) :
    (zip ks vs : Row κ ν) x = vs[i]? ∧ i < vs.length := by
  induction ks generalizing vs i with
  | nil => cases hi
  | cons k ks ih =>
      cases vs with
      | nil => cases h
      | cons v vs =>
          rw [List.findIdx?_cons] at hi
          split at hi
          · rename_i hk
            obtain rfl := Option.some.inj hi
            rw [zip_cons, if_pos (of_decide_eq_true hk).symm]
            exact ⟨rfl, Nat.zero_lt_succ _⟩
          · rename_i hk
            obtain ⟨j, hj, rfl⟩ := Option.map_eq_some_iff.mp hi
            obtain ⟨hx, hlt⟩ := ih (Nat.succ.inj h) hj
            rw [zip_cons, if_neg fun hxk : x = k => hk (decide_eq_true hxk.symm), hx]
            exact ⟨rfl, Nat.succ_lt_succ hlt⟩

/-- The values that stand under keys may be longer than these. -/
theorem zip_take (ks : List κ) (vs : List ν) :
    (zip ks (vs.take ks.length) : Row κ ν) = zip ks vs := by
  induction ks generalizing vs with
  | nil => cases vs <;> rfl
  | cons k ks ih =>
      cases vs with
      | nil => rfl
      | cons v vs =>
          funext x
          rw [List.length_cons, List.take_succ_cons, zip_cons, zip_cons, ih]

/-- The same values under other keys. -/
theorem zip_map_congr {α κ' : Type} [DecidableEq κ'] {xs : List α} {i : α → κ} {j : α → κ'} {x : κ}
    {y : κ'} (h : ∀ a ∈ xs, x = i a ↔ y = j a) (vs : List ν) :
    (zip (xs.map i) vs : Row κ ν) x = (zip (xs.map j) vs : Row κ' ν) y := by
  induction xs generalizing vs with
  | nil => rfl
  | cons a xs ih =>
      obtain ⟨ha, hxs⟩ := List.forall_mem_cons.mp h
      cases vs with
      | nil => rfl
      | cons v vs => simp only [List.map_cons, zip_cons, ha, ih hxs]

theorem zip_ne_none {ks : List κ} {vs : List ν} {x : κ} (h : ks.length ≤ vs.length) (hx : x ∈ ks) :
    (zip ks vs : Row κ ν) x ≠ none := by
  induction ks generalizing vs with
  | nil => cases hx
  | cons k ks ih =>
      cases vs with
      | nil => cases h
      | cons v vs =>
          rw [zip_cons]
          split
          · exact Option.some_ne_none v
          · rename_i hne
            exact ih (Nat.le_of_succ_le_succ h) ((List.mem_cons.mp hx).resolve_left hne)

/-- Keys and values that are related one by one. -/
theorem zip_related {R : κ → ν → Prop} {ks : List κ} {vs : List ν} {x : κ} {v : ν}
    (h : List.Forall₂ R ks vs) (hx : (zip ks vs : Row κ ν) x = some v) : R x v := by
  induction h with
  | nil => cases hx
  | @cons k w ks vs hkw _ ih =>
      rw [zip_cons] at hx
      split at hx
      · rename_i hk
        rw [← Option.some.inj hx, hk]
        exact hkw
      · exact ih hx

theorem ne_nil_of_zip {ks : List κ} {vs : List ν} {x : κ} (h : (zip ks vs : Row κ ν) x ≠ none) :
    vs ≠ [] := by
  rintro rfl
  cases ks with
  | nil => exact h rfl
  | cons k ks => exact h rfl

end Zip

/-! ### Equalities between keys -/

section Equalities

variable [DecidableEq ν]

/-- Two values are equal, when both are there. -/
def sameValue : Option ν → Option ν → Bool
  | some v, some w => decide (v = w)
  | _, _ => true

@[simp] theorem sameValue_none (v : Option ν) : sameValue v none = true := by cases v <;> rfl

@[simp] theorem none_sameValue (v : Option ν) : sameValue none v = true := rfl

theorem sameValue_comm (v w : Option ν) : sameValue v w = sameValue w v := by
  cases v with
  | none => rw [none_sameValue, sameValue_none]
  | some v =>
      cases w with
      | none => rfl
      | some w => exact decide_eq_decide.mpr eq_comm

/-- Each pair of keys has one value. -/
def sat (eqs : List (κ × κ)) (f : Row κ ν) : Bool := eqs.all fun e => sameValue (f e.1) (f e.2)

/-- The equalities between a key of one row and a key of the other. -/
def meets (eqs : List (κ × κ)) (f g : Row κ ν) : Bool :=
  eqs.all fun e => sameValue (f e.1) (g e.2) && sameValue (g e.1) (f e.2)

variable {eqs : List (κ × κ)} {p : κ → Bool}

theorem sat_merge (hfg : Apart f g) :
    sat eqs (merge f g) = (sat eqs f && sat eqs g && meets eqs f g) := by
  rw [Bool.eq_iff_iff]
  simp only [sat, meets, Bool.and_eq_true, List.all_eq_true, ← forall₂_and]
  refine forall₂_congr fun e _ => ?_
  rcases hfg e.1 with h₁ | h₁
  · rcases hfg e.2 with h₂ | h₂
    · simp [merge, h₁, h₂]
    · simp [merge, h₁, h₂]
  · rcases hfg e.2 with h₂ | h₂
    · simp [merge, h₁, h₂]
    · simp [merge, h₁, h₂]

/-- A row without one key of each pair. -/
theorem sat_of_missing (h : ∀ e ∈ eqs, f e.1 = none ∨ f e.2 = none) : sat eqs f = true := by
  rw [sat, List.all_eq_true]
  intro e he
  rcases h e he with hnone | hnone
  · rw [hnone, none_sameValue]
  · rw [hnone, sameValue_none]

theorem meets_restrict (h : ∀ e ∈ eqs, p e.1 = true ∧ p e.2 = true) :
    meets eqs (restrict p f) (restrict p g) = meets eqs f g := by
  rw [Bool.eq_iff_iff, meets, meets, List.all_eq_true, List.all_eq_true]
  refine forall₂_congr fun e he => ?_
  simp only [restrict, (h e he).1, (h e he).2, if_true]

end Equalities

end Row

/-! ## Products -/

/-- Every row of the one with every row of the other. -/
def times (as bs : List (Row κ ν)) : List (Row κ ν) := as.flatMap fun a => bs.map a.merge

/-- One row of each list, in every way. -/
def product (tables : List (List (Row κ ν))) : List (Row κ ν) := tables.foldr times [Row.nil]

/-- No key is in two lists of rows. -/
def TablesApart (as bs : List (Row κ ν)) : Prop := ∀ a ∈ as, ∀ b ∈ bs, Row.Apart a b

variable {as as' bs bs' cs : List (Row κ ν)}

theorem TablesApart.symm (h : TablesApart as bs) : TablesApart bs as :=
  fun b hb a ha => (h a ha b hb).symm

theorem mem_times {r : Row κ ν} : r ∈ times as bs ↔ ∃ a ∈ as, ∃ b ∈ bs, a.merge b = r := by
  simp [times]

theorem times_assoc (as bs cs : List (Row κ ν)) :
    times (times as bs) cs = times as (times bs cs) := by
  simp only [times, List.flatMap_assoc, List.map_flatMap, List.flatMap_map, List.map_map]
  refine List.flatMap_congr fun a _ => List.flatMap_congr fun b _ => List.map_congr_left ?_
  exact fun c _ => Row.merge_assoc a b c

theorem times_nil (as : List (Row κ ν)) : times as [Row.nil] = as := by
  simp [times]

theorem times_perm (ha : as.Perm as') (hb : bs.Perm bs') :
    (times as bs).Perm (times as' bs') :=
  (ha.flatMap_right _).trans (List.Perm.flatMap_left _ fun _ _ => hb.map _)

theorem times_comm (h : TablesApart as bs) : (times as bs).Perm (times bs as) := by
  induction as with
  | nil => simp [times]
  | cons a as ih =>
      have hrest : (times as bs).Perm (times bs as) :=
        ih fun x hx => h x (List.mem_cons_of_mem a hx)
      have hfirst : bs.map a.merge = bs.map fun b => b.merge a :=
        List.map_congr_left fun b hb => Row.merge_comm (h a List.mem_cons_self b hb)
      have hsplit : ((bs.map fun b => b.merge a) ++ times bs as).Perm (times bs (a :: as)) :=
        List.map_append_flatMap_perm bs _ _
      have hcons : times (a :: as) bs = bs.map a.merge ++ times as bs := rfl
      rw [hcons, hfirst]
      exact (hrest.append_left _).trans hsplit

theorem product_cons (as : List (Row κ ν)) (tables : List (List (Row κ ν))) :
    product (as :: tables) = times as (product tables) := rfl

theorem product_congr {tables tables' : List (List (Row κ ν))}
    (h : List.Forall₂ List.Perm tables tables') : (product tables).Perm (product tables') := by
  induction h with
  | nil => exact .refl _
  | cons hperm _ ih => exact times_perm hperm ih

/-- From the left. -/
theorem foldl_times (as : List (Row κ ν)) (tables : List (List (Row κ ν))) :
    tables.foldl times as = times as (product tables) := by
  induction tables generalizing as with
  | nil => exact (times_nil as).symm
  | cons bs tables ih => rw [List.foldl_cons, ih, times_assoc, product_cons]

/-- The order of the tables does not matter. -/
theorem product_perm {tables tables' : List (List (Row κ ν))} (hperm : tables.Perm tables')
    (h : tables.Pairwise TablesApart) : (product tables).Perm (product tables') := by
  induction hperm with
  | nil => exact .refl _
  | cons as _ ih => exact times_perm (.refl _) (ih (List.pairwise_cons.mp h).2)
  | swap as bs tables =>
      have hapart : TablesApart bs as := (List.pairwise_cons.mp h).1 as List.mem_cons_self
      rw [product_cons, product_cons, product_cons, product_cons, ← times_assoc, ← times_assoc]
      exact times_perm (times_comm hapart) (.refl _)
  | trans hp _ ih ih' =>
      exact (ih h).trans (ih' ((hp.pairwise_iff fun h => TablesApart.symm h).mp h))

/-! ## Joins -/

section Joins

variable [DecidableEq ν] {eqs : List (κ × κ)} {p : κ → Bool}

/-- The pairs of rows in which the equalities between the two hold. -/
def matching (eqs : List (κ × κ)) (as bs : List (Row κ ν)) : List (Row κ ν) :=
  as.flatMap fun a => (bs.filter (Row.meets eqs a)).map a.merge

/-- What holds in every row of the one is checked once. -/
theorem filter_times (h : TablesApart as bs) (hbs : ∀ b ∈ bs, Row.sat eqs b = true) :
    (times as bs).filter (Row.sat eqs) = matching eqs (as.filter (Row.sat eqs)) bs := by
  induction as with
  | nil => rfl
  | cons a as ih =>
      have hrest := ih fun x hx => h x (List.mem_cons_of_mem a hx)
      have hsat : ∀ b ∈ bs, Row.sat eqs (a.merge b) = (Row.sat eqs a && Row.meets eqs a b) := by
        intro b hb
        rw [Row.sat_merge (h a List.mem_cons_self b hb), hbs b hb, Bool.and_true]
      have hcons : times (a :: as) bs = bs.map a.merge ++ times as bs := rfl
      rw [hcons, List.filter_append, hrest, List.filter_map, List.filter_cons]
      cases ha : Row.sat eqs a with
      | true =>
          have hfilter : bs.filter (Row.sat eqs ∘ a.merge) = bs.filter (Row.meets eqs a) :=
            List.filter_congr fun b hb => by rw [Function.comp_apply, hsat b hb, ha, Bool.true_and]
          rw [if_pos rfl, hfilter]
          rfl
      | false =>
          have hfilter : bs.filter (Row.sat eqs ∘ a.merge) = [] :=
            List.filter_eq_nil_iff.mpr fun b hb => by simp [hsat b hb, ha]
          rw [if_neg Bool.false_ne_true, hfilter]
          rfl

/-- From the left, with the equalities checked at each table. -/
theorem foldl_matching {tables : List (List (Row κ ν))}
    (h : (as :: tables).Pairwise TablesApart)
    (hsat : ∀ bs ∈ tables, ∀ b ∈ bs, Row.sat eqs b = true) :
    tables.foldl (matching eqs) (as.filter (Row.sat eqs)) =
      (tables.foldl times as).filter (Row.sat eqs) := by
  induction tables generalizing as with
  | nil => rfl
  | cons bs tables ih =>
      obtain ⟨has, htables⟩ := List.pairwise_cons.mp h
      obtain ⟨hbs, htables'⟩ := List.pairwise_cons.mp htables
      obtain ⟨hsatbs, hsattables⟩ := List.forall_mem_cons.mp hsat
      have hnext : (times as bs :: tables).Pairwise TablesApart := by
        refine List.pairwise_cons.mpr ⟨fun cs hcs r hr c hc => ?_, htables'⟩
        obtain ⟨a, ha, b, hb, rfl⟩ := mem_times.mp hr
        exact (has cs (List.mem_cons_of_mem bs hcs) a ha c hc).merge (hbs cs hcs b hb c hc)
      rw [List.foldl_cons, List.foldl_cons, ← ih hnext hsattables,
        filter_times (has bs List.mem_cons_self) hsatbs]

/-- The keys of the equalities may be all that is kept. -/
theorem map_restrict_matching (h : ∀ e ∈ eqs, p e.1 = true ∧ p e.2 = true) :
    (matching eqs as bs).map (Row.restrict p) =
      matching eqs (as.map (Row.restrict p)) (bs.map (Row.restrict p)) := by
  simp only [matching, List.map_flatMap, List.flatMap_map, List.map_map, List.filter_map]
  refine List.flatMap_congr fun a _ => ?_
  have hfilter : bs.filter (Row.meets eqs (Row.restrict p a) ∘ Row.restrict p) =
      bs.filter (Row.meets eqs a) :=
    List.filter_congr fun b _ => Row.meets_restrict h
  rw [hfilter]
  exact List.map_congr_left fun b _ => Row.restrict_merge p a b

end Joins

end Iic3413Db.Foundation
