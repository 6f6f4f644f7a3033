/-
  Foundation/Filters.lean --- filters below products and outer joins of lists of rows.

  Nothing here mentions the database.  A predicate that reads only keys of one factor may be
  applied to that factor.  Below an outer join this also removes the partners of other rows, and
  the rows that this leaves alone are what a pushed predicate adds to the result.
-/
import Iic3413Db.Foundation.Rows

set_option autoImplicit false

namespace Iic3413Db.Foundation

variable {κ ν : Type}

/-! ## What a predicate reads -/

namespace Row

/-- The predicate depends on these keys only. -/
def Reads (keys : κ → Prop) (p : Row κ ν → Bool) : Prop :=
  ∀ f g : Row κ ν, (∀ k, keys k → f k = g k) → p f = p g

/-- The row has these keys only. -/
def Over (keys : κ → Prop) (f : Row κ ν) : Prop := ∀ k, f k ≠ none → keys k

variable {keys keys' : κ → Prop} {p q : Row κ ν → Bool} {f g : Row κ ν}

theorem Reads.mono (h : Reads keys p) (hsub : ∀ k, keys k → keys' k) : Reads keys' p :=
  fun f g heq => h f g fun k hk => heq k (hsub k hk)

theorem Reads.all {α : Type} {as : List α} {p : α → Row κ ν → Bool}
    (h : ∀ a ∈ as, Reads keys (p a)) : Reads keys fun f => as.all fun a => p a f := by
  intro f g heq
  induction as with
  | nil => rfl
  | cons a as ih =>
      obtain ⟨ha, has⟩ := List.forall_mem_cons.mp h
      simp only [List.all_cons, ha f g heq, ih has]

theorem Over.mono (h : Over keys f) (hsub : ∀ k, keys k → keys' k) : Over keys' f :=
  fun k hk => hsub k (h k hk)

theorem Over.merge (hf : Over keys f) (hg : Over keys g) : Over keys (f.merge g) := by
  intro k hk
  by_cases hfk : f k = none
  · refine hg k fun hgk => hk ?_
    rw [Row.merge, hfk, hgk]
    rfl
  · exact hf k hfk

theorem Over.apart (hf : Over keys f) (hg : Over keys' g) (h : ∀ k, keys k → ¬ keys' k) :
    Apart f g := by
  intro k
  by_contra hboth
  obtain ⟨hfk, hgk⟩ := not_or.mp hboth
  exact h k (hf k hfk) (hg k hgk)

/-- A predicate over keys that the second row does not have. -/
theorem Reads.merge_left (hp : Reads keys p) (hg : Over keys' g) (h : ∀ k, keys k → ¬ keys' k) :
    p (f.merge g) = p f := by
  refine hp _ _ fun k hk => ?_
  have hgk : g k = none := by_contra fun hgk => h k hk (hg k hgk)
  rw [Row.merge, hgk, Option.or_none]

theorem Reads.merge_right (hp : Reads keys p) (hf : Over keys' f) (h : ∀ k, keys k → ¬ keys' k) :
    p (f.merge g) = p g := by
  refine hp _ _ fun k hk => ?_
  have hfk : f k = none := by_contra fun hfk => h k hk (hf k hfk)
  rw [Row.merge, hfk, Option.none_or]

end Row

/-! ## Products -/

section Products

variable {as bs : List (Row κ ν)} {p q : Row κ ν → Bool} {keys keys' : κ → Prop}

theorem mem_product_over {tables : List (List (Row κ ν))}
    (h : ∀ table ∈ tables, ∀ f ∈ table, Row.Over keys f) {f : Row κ ν} (hf : f ∈ product tables) :
    Row.Over keys f := by
  induction tables generalizing f with
  | nil =>
      obtain rfl := List.mem_singleton.mp hf
      exact fun k hk => absurd rfl hk
  | cons table tables ih =>
      obtain ⟨htable, htables⟩ := List.forall_mem_cons.mp h
      obtain ⟨a, ha, b, hb, rfl⟩ := mem_times.mp hf
      exact (htable a ha).merge (ih htables hb)

/-- A key that every row of a factor has. -/
theorem mem_product_ne_none {tables : List (List (Row κ ν))} {table : List (Row κ ν)} {k : κ}
    (htable : table ∈ tables) (h : ∀ f ∈ table, f k ≠ none) {f : Row κ ν}
    (hf : f ∈ product tables) : f k ≠ none := by
  induction tables generalizing f with
  | nil => cases htable
  | cons t tables ih =>
      obtain ⟨a, ha, b, hb, rfl⟩ := mem_times.mp hf
      intro hnone
      obtain ⟨hak, hbk⟩ := Option.or_eq_none_iff.mp hnone
      rcases List.mem_cons.mp htable with rfl | htable
      · exact h a ha hak
      · exact ih htable hb hbk

/-- Each factor of a product may be filtered before. -/
theorem filter_times_and (hp : Row.Reads keys p) (hq : Row.Reads keys' q)
    (has : ∀ a ∈ as, Row.Over keys a) (hbs : ∀ b ∈ bs, Row.Over keys' b)
    (h : ∀ k, keys k → ¬ keys' k) :
    (times as bs).filter (fun f => p f && q f) = times (as.filter p) (bs.filter q) := by
  have hsplit : ∀ a ∈ as, (bs.map a.merge).filter (fun f => p f && q f) =
      if p a then (bs.filter q).map a.merge else [] := by
    intro a ha
    have hboth : ∀ b ∈ bs, (p (a.merge b) && q (a.merge b)) = (p a && q b) := by
      intro b hb
      rw [hp.merge_left (hbs b hb) h, hq.merge_right (has a ha) fun k hk hk' => h k hk' hk]
    rw [List.filter_map]
    cases hpa : p a with
    | true =>
        rw [if_pos rfl]
        refine congrArg _ (List.filter_congr fun b hb => ?_)
        rw [Function.comp_apply, hboth b hb, hpa, Bool.true_and]
    | false =>
        rw [if_neg Bool.false_ne_true, List.map_eq_nil_iff, List.filter_eq_nil_iff]
        intro b hb
        rw [Function.comp_apply, hboth b hb, hpa, Bool.false_and]
        exact Bool.false_ne_true
  unfold times
  clear hp hq
  induction as with
  | nil => rfl
  | cons a as ih =>
      obtain ⟨ha, has'⟩ := List.forall_mem_cons.mp hsplit
      rw [List.flatMap_cons, List.filter_append, ha,
        ih (fun x hx => has x (List.mem_cons_of_mem a hx)) has', List.filter_cons]
      split
      · rw [List.flatMap_cons]
      · rw [List.nil_append]

/-- A predicate for each factor of a product. -/
theorem product_filter {ι : Type} (keysOf : ι → κ → Prop) (p : ι → Row κ ν → Bool)
    (rows : ι → List (Row κ ν)) {is : List ι}
    (hrows : ∀ i ∈ is, ∀ f ∈ rows i, Row.Over (keysOf i) f)
    (hreads : ∀ i ∈ is, Row.Reads (keysOf i) (p i))
    (hapart : is.Pairwise fun i j => ∀ k, keysOf i k → ¬ keysOf j k) :
    product (is.map fun i => (rows i).filter (p i)) =
      (product (is.map rows)).filter fun f => is.all fun i => p i f := by
  induction is with
  | nil => rfl
  | cons i is ih =>
      obtain ⟨hi, his⟩ := List.forall_mem_cons.mp hrows
      obtain ⟨hpi, hpis⟩ := List.forall_mem_cons.mp hreads
      obtain ⟨happarti, hapartis⟩ := List.pairwise_cons.mp hapart
      have hrest : ∀ f ∈ product (is.map rows), Row.Over (fun k => ∃ j ∈ is, keysOf j k) f := by
        refine fun f hf => mem_product_over (fun table htable f hf => ?_) hf
        obtain ⟨j, hj, rfl⟩ := List.mem_map.mp htable
        exact (his j hj f hf).mono fun k hk => ⟨j, hj, hk⟩
      have hreadsRest : Row.Reads (fun k => ∃ j ∈ is, keysOf j k)
          fun f => is.all fun j => p j f :=
        Row.Reads.all fun j hj => (hpis j hj).mono fun k hk => ⟨j, hj, hk⟩
      rw [List.map_cons, List.map_cons, product_cons, product_cons, ih his hpis hapartis,
        ← filter_times_and hpi hreadsRest hi hrest fun k hk ⟨j, hj, hk'⟩ => happarti j hj k hk hk']
      rfl

theorem nil_times (bs : List (Row κ ν)) : times [Row.nil] bs = bs := by
  have hmerge : (Row.nil : Row κ ν).merge = id := funext Row.nil_merge
  rw [times, List.flatMap_singleton, hmerge, List.map_id]

theorem product_append (tables tables' : List (List (Row κ ν))) :
    product (tables ++ tables') = times (product tables) (product tables') := by
  induction tables with
  | nil => exact (nil_times _).symm
  | cons table tables ih =>
      rw [List.cons_append, product_cons, product_cons, ih, times_assoc]

/-- A product of products. -/
theorem product_flatten (groups : List (List (List (Row κ ν)))) :
    product (groups.map product) = product groups.flatten := by
  induction groups with
  | nil => rfl
  | cons group groups ih =>
      rw [List.map_cons, product_cons, ih, List.flatten_cons, product_append]

end Products

/-! ## Outer joins -/

section OuterJoins

variable {α β γ : Type}

/-- The rows of the one side with those of the other that they meet. -/
def matched (meets : α → β → Bool) (both : α → β → γ) (as : List α) (bs : List β) : List γ :=
  as.flatMap fun a => (bs.filter (meets a)).map (both a)

/-- The rows of the one side that meet none of the other. -/
def unmatched (meets : α → β → Bool) (as : List α) (bs : List β) : List α :=
  as.filter fun a => !bs.any (meets a)

/-- The left outer join. -/
def leftOuter (meets : α → β → Bool) (both : α → β → γ) (alone : α → γ) (as : List α)
    (bs : List β) : List γ :=
  matched meets both as bs ++ (unmatched meets as bs).map alone

/-- The full outer join. -/
def fullOuter (meets : α → β → Bool) (both : α → β → γ) (alone : α → γ) (aloneRight : β → γ)
    (as : List α) (bs : List β) : List γ :=
  leftOuter meets both alone as bs ++ (unmatched (fun b a => meets a b) bs as).map aloneRight

/-- The rows that are alone in a result only because predicates were pushed below the join: they
pass, and have no partner that passes, but have one that does not, or nulls do not pass. -/
def exposed (meets : α → β → Bool) (alone : α → γ) (p : α → Bool) (q : β → Bool) (s : γ → Bool)
    (nullQ : Bool) (as : List α) (bs : List β) : List α :=
  as.filter fun a =>
    (p a && s (alone a) && !(bs.filter q).any (meets a)) && !(!bs.any (meets a) && nullQ)

/-- The rows of a left row: it is alone, or with each of its partners. -/
def outerRows (meets : α → β → Bool) (both : α → β → γ) (alone : α → γ) (bs : List β) (a : α) :
    List γ :=
  match bs.filter (meets a) with
  | [] => [alone a]
  | b :: bs => (b :: bs).map (both a)

variable {meets : α → β → Bool} {both : α → β → γ} {alone : α → γ} {aloneRight : β → γ}
  {as as' : List α} {bs bs' : List β} {p : α → Bool} {q : β → Bool} {s whole : γ → Bool}
  {nullP nullQ : Bool}

theorem mem_leftOuter {c : γ} (h : c ∈ leftOuter meets both alone as bs) :
    ∃ a ∈ as, (∃ b ∈ bs, c = both a b) ∨ c = alone a := by
  rcases List.mem_append.mp h with h | h
  · obtain ⟨a, ha, h⟩ := List.mem_flatMap.mp h
    obtain ⟨b, hb, rfl⟩ := List.mem_map.mp h
    exact ⟨a, ha, .inl ⟨b, List.mem_of_mem_filter hb, rfl⟩⟩
  · obtain ⟨a, ha, rfl⟩ := List.mem_map.mp h
    exact ⟨a, List.mem_of_mem_filter ha, .inr rfl⟩

/-- The rows of one left row after the other. -/
theorem flatMap_outerRows_perm (as : List α) (bs : List β) :
    (as.flatMap (outerRows meets both alone bs)).Perm (leftOuter meets both alone as bs) := by
  induction as with
  | nil => exact .refl _
  | cons a as ih =>
      have hcons : leftOuter meets both alone (a :: as) bs =
          (bs.filter (meets a)).map (both a) ++ (matched meets both as bs ++
            (unmatched meets (a :: as) bs).map alone) := by
        rw [leftOuter, matched, List.flatMap_cons, List.append_assoc]
        rfl
      rw [List.flatMap_cons, hcons, outerRows]
      cases hfilter : bs.filter (meets a) with
      | nil =>
          have hany : bs.any (meets a) = false := by
            rw [List.any_eq_false]
            exact List.filter_eq_nil_iff.mp hfilter
          have hunmatched : unmatched meets (a :: as) bs = a :: unmatched meets as bs :=
            List.filter_cons_of_pos (by rw [hany]; rfl)
          rw [hunmatched, List.map_cons, List.map_nil, List.nil_append]
          exact (ih.cons (alone a)).trans List.perm_middle.symm
      | cons b partners =>
          have hany : bs.any (meets a) = true := by
            have hb : b ∈ bs.filter (meets a) := by
              rw [hfilter]
              exact List.mem_cons_self
            exact List.any_eq_true.mpr ⟨b, List.mem_filter.mp hb⟩
          have hunmatched : unmatched meets (a :: as) bs = unmatched meets as bs :=
            List.filter_cons_of_neg (by rw [hany]; exact Bool.false_ne_true)
          rw [hunmatched]
          exact ih.append_left _

theorem unmatched_perm (ha : as.Perm as') (hb : bs.Perm bs') :
    (unmatched meets as bs).Perm (unmatched meets as' bs') := by
  have hany : ∀ a, bs.any (meets a) = bs'.any (meets a) := fun a => by
    rw [Bool.eq_iff_iff, List.any_eq_true, List.any_eq_true]
    exact exists_congr fun b => and_congr_left' hb.mem_iff
  simp only [unmatched, hany]
  exact ha.filter _

theorem leftOuter_perm (ha : as.Perm as') (hb : bs.Perm bs') :
    (leftOuter meets both alone as bs).Perm (leftOuter meets both alone as' bs') := by
  refine List.Perm.append ?_ ((unmatched_perm ha hb).map alone)
  exact (ha.flatMap_right _).trans (List.Perm.flatMap_left _ fun a _ => (hb.filter _).map _)

theorem fullOuter_perm (ha : as.Perm as') (hb : bs.Perm bs') :
    (fullOuter meets both alone aloneRight as bs).Perm
      (fullOuter meets both alone aloneRight as' bs') :=
  (leftOuter_perm ha hb).append ((unmatched_perm hb ha).map aloneRight)

/-- Nothing happens to the rows that meet. -/
theorem matched_filter
    (hboth : ∀ a ∈ as, ∀ b ∈ bs, whole (both a b) = (p a && q b && s (both a b))) :
    (matched meets both (as.filter p) (bs.filter q)).filter s =
      (matched meets both as bs).filter whole := by
  induction as with
  | nil => rfl
  | cons a as ih =>
      obtain ⟨ha, has⟩ := List.forall_mem_cons.mp hboth
      have hfirst : ((bs.filter (meets a)).map (both a)).filter whole =
          if p a then (((bs.filter q).filter (meets a)).map (both a)).filter s else [] := by
        simp only [List.filter_map, List.filter_filter]
        split
        · rename_i hp
          refine congrArg _ (List.filter_congr fun b hb => ?_)
          simp only [Function.comp_apply, ha b hb, hp, Bool.true_and]
          cases q b <;> cases s (both a b) <;> cases meets a b <;> rfl
        · rename_i hp
          rw [List.map_eq_nil_iff, List.filter_eq_nil_iff]
          intro b hb
          simp [ha b hb, hp]
      rw [List.filter_cons]
      unfold matched at ih ⊢
      rw [List.flatMap_cons, List.filter_append, hfirst, ← ih has]
      split
      · rw [List.flatMap_cons, List.filter_append]
      · rw [List.nil_append]

/-- The rows that stay alone, and those that are exposed. -/
theorem unmatched_filter
    (halone : ∀ a ∈ as, whole (alone a) = (p a && nullQ && s (alone a))) :
    (((unmatched meets (as.filter p) (bs.filter q)).map alone).filter s).Perm
      (((unmatched meets as bs).map alone).filter whole ++
        (exposed meets alone p q s nullQ as bs).map alone) := by
  obtain ⟨passes, hpasses⟩ : ∃ passes : α → Bool, passes =
      fun a => p a && s (alone a) && !(bs.filter q).any (meets a) := ⟨_, rfl⟩
  obtain ⟨stays, hstays⟩ : ∃ stays : α → Bool, stays =
      fun a => !bs.any (meets a) && nullQ := ⟨_, rfl⟩
  have hleft : ((unmatched meets (as.filter p) (bs.filter q)).map alone).filter s =
      (as.filter passes).map alone := by
    rw [unmatched, List.filter_map, List.filter_filter, List.filter_filter, hpasses]
    refine congrArg _ (List.filter_congr fun a _ => ?_)
    simp only [Function.comp_apply]
    cases p a <;> cases s (alone a) <;> cases (bs.filter q).any (meets a) <;> rfl
  have hright : ((unmatched meets as bs).map alone).filter whole =
      ((as.filter passes).filter stays).map alone := by
    rw [unmatched, List.filter_map, List.filter_filter, List.filter_filter, hpasses, hstays]
    refine congrArg _ (List.filter_congr fun a ha => ?_)
    rw [Function.comp_apply, halone a ha]
    cases hany : bs.any (meets a) with
    | true => simp only [hany, Bool.not_true, Bool.false_and, Bool.and_false]
    | false =>
        have hfewer : (bs.filter q).any (meets a) = false := by
          rw [List.any_eq_false] at hany ⊢
          exact fun b hb => hany b (List.mem_filter.mp hb).1
        simp only [hfewer, hany]
        cases p a <;> cases s (alone a) <;> cases nullQ <;> rfl
  have hexposed : exposed meets alone p q s nullQ as bs =
      (as.filter passes).filter fun a => !stays a := by
    rw [exposed, List.filter_filter, hpasses, hstays]
    exact List.filter_congr fun a _ => Bool.and_comm ..
  rw [hleft, hright, hexposed, ← List.map_append]
  exact ((List.filter_append_perm stays (as.filter passes)).symm.map alone)

/-- What predicates pushed below a left outer join add. -/
theorem leftOuter_filter
    (hboth : ∀ a ∈ as, ∀ b ∈ bs, whole (both a b) = (p a && q b && s (both a b)))
    (halone : ∀ a ∈ as, whole (alone a) = (p a && nullQ && s (alone a))) :
    ((leftOuter meets both alone (as.filter p) (bs.filter q)).filter s).Perm
      ((leftOuter meets both alone as bs).filter whole ++
        (exposed meets alone p q s nullQ as bs).map alone) := by
  rw [leftOuter, leftOuter, List.filter_append, List.filter_append, matched_filter hboth,
    List.append_assoc]
  exact (unmatched_filter halone).append_left _

/-- What predicates pushed below a full outer join add, on both sides. -/
theorem fullOuter_filter
    (hboth : ∀ a ∈ as, ∀ b ∈ bs, whole (both a b) = (p a && q b && s (both a b)))
    (halone : ∀ a ∈ as, whole (alone a) = (p a && nullQ && s (alone a)))
    (haloneRight : ∀ b ∈ bs, whole (aloneRight b) = (q b && nullP && s (aloneRight b))) :
    ((fullOuter meets both alone aloneRight (as.filter p) (bs.filter q)).filter s).Perm
      ((fullOuter meets both alone aloneRight as bs).filter whole ++
        ((exposed meets alone p q s nullQ as bs).map alone ++
          (exposed (fun b a => meets a b) aloneRight q p s nullP bs as).map aloneRight)) := by
  rw [fullOuter, fullOuter, List.filter_append, List.filter_append]
  refine ((leftOuter_filter hboth halone).append (unmatched_filter haloneRight)).trans ?_
  simp only [List.append_assoc]
  refine List.Perm.append_left _ ?_
  rw [← List.append_assoc, ← List.append_assoc]
  exact List.perm_append_comm.append_right _

end OuterJoins

end Iic3413Db.Foundation
