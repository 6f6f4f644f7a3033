/-
  Query/Optimizer/JoinOrders.lean --- the whole chain of a `JoinPlan`, for every
  order of the children.

  `Chain` relates the iterator built so far to the children it has joined.  Its
  rows are those of the product of these children that satisfy the equalities; a
  product of all the children does not depend on their order.
-/
import Iic3413Db.Query.Optimizer.Joins

set_option autoImplicit false

namespace Iic3413Db.Query

open Iic3413Db.Foundation Iic3413Db.RelationalModel

/-! ## Where two children meet -/

section Crossings

variable {α : Type} [DecidableEq α]

/-- How often one of the two is joined to the children with the other. -/
def crossings (a b : α) : List α → List α → Nat
  | _, [] => 0
  | seen, c :: rest =>
      (if (a ∈ seen ∧ b = c) ∨ (b ∈ seen ∧ a = c) then 1 else 0) + crossings a b (c :: seen) rest

/-- Once, whatever the order. -/
theorem crossings_eq {a b : α} (hab : a ≠ b) (rest seen : List α) (hdisjoint : seen.Disjoint rest)
    (hrest : rest.Nodup) (ha : a ∈ seen ∨ a ∈ rest) (hb : b ∈ seen ∨ b ∈ rest) :
    crossings a b seen rest = if a ∈ seen ∧ b ∈ seen then 0 else 1 := by
  induction rest generalizing seen with
  | nil =>
      have ha : a ∈ seen := ha.resolve_right List.not_mem_nil
      have hb : b ∈ seen := hb.resolve_right List.not_mem_nil
      rw [if_pos ⟨ha, hb⟩]
      rfl
  | cons c rest ih =>
      obtain ⟨hc, hrest⟩ := List.nodup_cons.mp hrest
      have hseen : c ∉ seen := fun h => hdisjoint h List.mem_cons_self
      have hdisjoint' : (c :: seen).Disjoint rest :=
        List.disjoint_cons_left.mpr ⟨hc, (List.disjoint_cons_right.mp hdisjoint).2⟩
      have hmove : ∀ x, x ∈ seen ∨ x ∈ c :: rest → x ∈ c :: seen ∨ x ∈ rest := by
        intro x hx
        rcases hx with hx | hx
        · exact .inl (List.mem_cons_of_mem c hx)
        · rcases List.mem_cons.mp hx with rfl | hx
          · exact .inl List.mem_cons_self
          · exact .inr hx
      rw [crossings, ih (c :: seen) hdisjoint' hrest (hmove a ha) (hmove b hb)]
      by_cases hac : a = c
      · subst hac
        by_cases hbs : b ∈ seen
        · simp [hbs, hseen]
        · simp [hbs, hseen, Ne.symm hab]
      · by_cases hbc : b = c
        · subst hbc
          by_cases has : a ∈ seen
          · simp [has, hseen]
          · simp [has, hseen, hac]
        · simp [hac, hbc]

end Crossings

/-! ## The chain -/

/-- The plan that `BuildJoins` makes: an alias for each child, pairs of existing
columns of two children, and a pair for each child. -/
structure JoinPlanOk (joins : List JoinPair) (children : List AliasedChild) : Prop where
  two : 2 ≤ children.length
  aliases : (children.map AliasedChild.tableAlias).Nodup
  existing : ∀ p ∈ joins, ∃ (i j : Nat) (c d : AliasedChild), i ≠ j ∧ children[i]? = some c ∧
    children[j]? = some d ∧ p.1.key ∈ c.keys ∧ p.2.key ∈ d.keys
  takesPart : ∀ c ∈ children, ∃ p ∈ joins, p.1.key ∈ c.keys ∨ p.2.key ∈ c.keys

/-- What a step of the chain needs to know of the plan. -/
structure StepOk (usage : ColumnUsage) (joins : List JoinPair) (children : List AliasedChild) :
    Prop where
  kept : ∀ p ∈ joins, usage.keeps p.1.key = true ∧ usage.keeps p.2.key = true
  apart : ∀ p ∈ joins, p.1.tableAlias ≠ p.2.tableAlias
  used : ∀ c ∈ children, ∃ col ∈ c.iter.getColumns, usage.uses col = true

/-- The columns of the chain: those of the children joined so far, in so far as
they are in use. -/
structure Covers (usage : ColumnUsage) (lhs : QueryIter) (seen : List AliasedChild) : Prop where
  kept : ∀ k, usage.keeps k = true → ∀ c ∈ seen, k ∈ c.keys → k ∈ lhs.getColumns.map Column.key
  ofSeen : ∀ col ∈ lhs.getColumns, ∃ c ∈ seen, c.tableAlias = col.tableAlias

/-- The chain so far, and the rows it delivers. -/
structure Chain (usage : ColumnUsage) (joins : List JoinPair) (seen : List AliasedChild)
    (rows : List (Row ColumnKey Value)) (lhs : QueryIter) (out : List Record) : Prop where
  delivers : Delivers lhs out
  aligned : Aligned lhs out
  covers : Covers usage lhs seen
  ofSeen : ∀ f ∈ rows, ∀ k, f k ≠ none → ∃ c ∈ seen, c.tableAlias = k.1
  result : (out.map (rowOf lhs)).map (Row.restrict usage.keeps) =
    (rows.filter (Row.sat (joinKeys joins))).map (Row.restrict usage.keeps)

section Chain

variable {usage : ColumnUsage} {joins : List JoinPair} {children seen : List AliasedChild}
  {rows : List (Row ColumnKey Value)} {lhs : QueryIter} {out : List Record} {c : AliasedChild}

theorem AliasedChild.keys_alias {k : ColumnKey} (h : k ∈ c.keys) : k.1 = c.tableAlias := by
  obtain ⟨col, hcol, rfl⟩ := List.mem_map.mp h
  exact c.ofAlias col hcol

/-- A row of a child has no key of another. -/
theorem AliasedChild.rowMaps_alias {f : Row ColumnKey Value} (hf : f ∈ c.rowMaps) {k : ColumnKey}
    (hk : f k ≠ none) : k.1 = c.tableAlias := by
  obtain ⟨r, _, rfl⟩ := List.mem_map.mp hf
  by_contra hne
  refine hk (Row.zip_eq_none fun hmem => hne (AliasedChild.keys_alias hmem))

theorem AliasedChild.rowMaps_sat (hjoins : StepOk usage joins children)
    {f : Row ColumnKey Value} (hf : f ∈ c.rowMaps) : Row.sat (joinKeys joins) f = true := by
  refine Row.sat_of_missing fun e he => ?_
  obtain ⟨p, hp, rfl⟩ := List.mem_map.mp he
  by_contra hboth
  obtain ⟨h₁, h₂⟩ := not_or.mp hboth
  exact hjoins.apart p hp
    ((AliasedChild.rowMaps_alias hf h₁).trans (AliasedChild.rowMaps_alias hf h₂).symm)

theorem Chain.first (hjoins : StepOk usage joins children) (c : AliasedChild) :
    Chain usage joins [c] c.rowMaps c.iter c.rows where
  delivers := c.delivers
  aligned := c.aligned
  covers := by
    refine ⟨fun k _ d hd hk => ?_, fun col hcol => ⟨c, List.mem_cons_self, (c.ofAlias col hcol).symm⟩⟩
    obtain rfl := List.mem_singleton.mp hd
    exact hk
  ofSeen f hf k hk := ⟨c, List.mem_cons_self, (AliasedChild.rowMaps_alias hf hk).symm⟩
  result := by
    rw [List.filter_eq_self.mpr fun f hf => AliasedChild.rowMaps_sat hjoins hf]
    rfl

/-- The columns of a step. -/
theorem Covers.step (h : Covers usage lhs seen) :
    Covers usage (joinStep usage joins lhs c.iter) (seen ++ [c]) where
  kept k hk d hd hkd := by
    have hfilter : ∀ cols : List Column, k ∈ cols.map Column.key →
        k ∈ (cols.filter usage.uses).map Column.key := by
      intro cols hmem
      obtain ⟨col, hcol, rfl⟩ := List.mem_map.mp hmem
      exact List.mem_map_of_mem (List.mem_filter.mpr ⟨hcol, hk⟩)
    rw [joinStep_columns, List.map_append, List.mem_append]
    rcases List.mem_append.mp hd with hd | hd
    · exact .inl (hfilter _ (h.kept k hk d hd hkd))
    · obtain rfl := List.mem_singleton.mp hd
      exact .inr (hfilter _ hkd)
  ofSeen col hcol := by
    rw [joinStep_columns, List.mem_append] at hcol
    rcases hcol with hcol | hcol
    · obtain ⟨d, hd, halias⟩ := h.ofSeen col (List.mem_of_mem_filter hcol)
      exact ⟨d, List.mem_append_left _ hd, halias⟩
    · exact ⟨c, List.mem_append_right _ List.mem_cons_self,
        (c.ofAlias col (List.mem_of_mem_filter hcol)).symm⟩

theorem Covers.apart (h : Covers usage lhs seen)
    (hnew : c.tableAlias ∉ seen.map AliasedChild.tableAlias) :
    ∀ col ∈ lhs.getColumns, col.tableAlias ≠ c.tableAlias := by
  intro col hcol halias
  obtain ⟨d, hd, hd'⟩ := h.ofSeen col hcol
  exact hnew (List.mem_map.mpr ⟨d, hd, hd'.trans halias⟩)

theorem Chain.apart (h : Chain usage joins seen rows lhs out)
    (hnew : c.tableAlias ∉ seen.map AliasedChild.tableAlias) : TablesApart rows c.rowMaps := by
  intro f hf g hg k
  by_contra hboth
  obtain ⟨hfk, hgk⟩ := not_or.mp hboth
  obtain ⟨d, hd, halias⟩ := h.ofSeen f hf k hfk
  exact hnew (List.mem_map.mpr ⟨d, hd, halias.trans (AliasedChild.rowMaps_alias hg hgk)⟩)

/-- One step takes the product with the rows of the next child, and keeps those
that satisfy the equalities. -/
theorem Chain.step (hjoins : StepOk usage joins children) (hc : c ∈ children)
    (hnew : c.tableAlias ∉ seen.map AliasedChild.tableAlias)
    (h : Chain usage joins seen rows lhs out) :
    Chain usage joins (seen ++ [c]) (times rows c.rowMaps) (joinStep usage joins lhs c.iter)
      (joinRows usage joins lhs c.iter out c.rows) where
  delivers := joinStep_delivers h.delivers h.aligned (hjoins.used c hc)
  aligned := joinRows_aligned h.aligned
  covers := h.covers.step
  ofSeen f hf k hk := by
    obtain ⟨a, ha, b, hb, rfl⟩ := mem_times.mp hf
    cases hak : a k with
    | some v =>
        obtain ⟨d, hd, halias⟩ := h.ofSeen a ha k (by rw [hak]; exact Option.some_ne_none v)
        exact ⟨d, List.mem_append_left _ hd, halias⟩
    | none =>
        have hbk : b k ≠ none := by simpa [Row.merge, hak] using hk
        exact ⟨c, List.mem_append_right _ List.mem_cons_self,
          (AliasedChild.rowMaps_alias hb hbk).symm⟩
  result := by
    have hkept : ∀ e ∈ joinKeys joins, usage.keeps e.1 = true ∧ usage.keeps e.2 = true := by
      intro e he
      obtain ⟨p, hp, rfl⟩ := List.mem_map.mp he
      exact hjoins.kept p hp
    have hidem : ∀ fs : List (Row ColumnKey Value),
        (fs.map (Row.restrict usage.keeps)).map (Row.restrict usage.keeps) =
          fs.map (Row.restrict usage.keeps) := by
      intro fs
      rw [List.map_map]
      exact List.map_congr_left fun f _ => Row.restrict_restrict (fun _ hk => hk) f
    calc ((joinRows usage joins lhs c.iter out c.rows).map
            (rowOf (joinStep usage joins lhs c.iter))).map (Row.restrict usage.keeps)
        = (matching (joinKeys joins) (out.map (rowOf lhs)) c.rowMaps).map
            (Row.restrict usage.keeps) := by
          rw [joinRows_rows h.aligned (h.covers.apart hnew), hidem]
      _ = matching (joinKeys joins) ((rows.filter (Row.sat (joinKeys joins))).map
            (Row.restrict usage.keeps)) (c.rowMaps.map (Row.restrict usage.keeps)) := by
          rw [map_restrict_matching hkept, h.result]
      _ = ((times rows c.rowMaps).filter (Row.sat (joinKeys joins))).map
            (Row.restrict usage.keeps) := by
          rw [← map_restrict_matching hkept, filter_times (h.apart hnew)
            fun f hf => AliasedChild.rowMaps_sat hjoins hf]

/-- All the steps. -/
theorem Chain.run (hjoins : StepOk usage joins children) (rest : List AliasedChild)
    (hrest : ∀ c ∈ rest, c ∈ children)
    (hnew : ((seen ++ rest).map AliasedChild.tableAlias).Nodup)
    (h : Chain usage joins seen rows lhs out) :
    ∃ out', Chain usage joins (seen ++ rest) ((rest.map AliasedChild.rowMaps).foldl times rows)
      ((rest.map fun c => c.iter).foldl (joinStep usage joins) lhs) out' := by
  induction rest generalizing seen rows lhs out with
  | nil =>
      rw [List.append_nil]
      exact ⟨out, h⟩
  | cons c rest ih =>
      rw [List.append_cons] at hnew
      have hc : c.tableAlias ∉ seen.map AliasedChild.tableAlias := by
        rw [List.map_append, List.map_append, List.nodup_append, List.nodup_append] at hnew
        exact fun hmem => hnew.1.2.2 _ hmem _ List.mem_cons_self rfl
      have hstep := h.step hjoins (hrest c List.mem_cons_self) hc
      rw [List.append_cons]
      exact ih (fun d hd => hrest d (List.mem_cons_of_mem c hd)) hnew hstep

/-- After a step every column is in use. -/
theorem foldl_used (cs : List QueryIter) (h : ∀ col ∈ lhs.getColumns, usage.uses col = true) :
    ∀ col ∈ (cs.foldl (joinStep usage joins) lhs).getColumns, usage.uses col = true := by
  induction cs generalizing lhs with
  | nil => exact h
  | cons rhs cs ih =>
      refine ih fun col hcol => ?_
      rw [joinStep_columns, ← List.filter_append] at hcol
      exact (List.mem_filter.mp hcol).2

theorem foldl_joinStep_used (lhs rhs : QueryIter) (cs : List QueryIter) :
    ∀ col ∈ ((rhs :: cs).foldl (joinStep usage joins) lhs).getColumns,
      usage.uses col = true := by
  refine foldl_used cs fun col hcol => ?_
  rw [joinStep_columns, ← List.filter_append] at hcol
  exact (List.mem_filter.mp hcol).2

theorem rowOf_used {r : Record} (h : ∀ col ∈ lhs.getColumns, usage.uses col = true) :
    Row.restrict usage.keeps (rowOf lhs r) = rowOf lhs r := by
  funext k
  unfold Row.restrict
  split
  · rfl
  · rename_i hk
    refine (Row.zip_eq_none fun hmem => ?_).symm
    obtain ⟨col, hcol, rfl⟩ := List.mem_map.mp hmem
    exact hk (h col hcol)

/-! ## Each equality at one step -/

/-- At how many steps the pair becomes an equality. -/
def timesEnforced (usage : ColumnUsage) (joins : List JoinPair) (p : JoinPair) :
    QueryIter → List QueryIter → Nat
  | _, [] => 0
  | lhs, rhs :: cs =>
      (if (equality lhs.getColumns rhs.getColumns p).isSome then 1 else 0) +
        timesEnforced usage joins p (joinStep usage joins lhs rhs) cs

theorem timesEnforced_eq {p : JoinPair} {all : List AliasedChild}
    (hkept : usage.keeps p.1.key = true ∧ usage.keeps p.2.key = true)
    (hfirst : ∀ c ∈ all, c.tableAlias = p.1.tableAlias → p.1.key ∈ c.keys)
    (hsecond : ∀ c ∈ all, c.tableAlias = p.2.tableAlias → p.2.key ∈ c.keys)
    (rest : List AliasedChild) (hseen : ∀ c ∈ seen, c ∈ all) (hrest : ∀ c ∈ rest, c ∈ all)
    (hnew : ((seen ++ rest).map AliasedChild.tableAlias).Nodup) (h : Covers usage lhs seen)
    (names : List (List UInt8)) (hnames : ∀ a, a ∈ names ↔ a ∈ seen.map AliasedChild.tableAlias) :
    timesEnforced usage joins p lhs (rest.map fun c => c.iter) =
      crossings p.1.tableAlias p.2.tableAlias names (rest.map AliasedChild.tableAlias) := by
  induction rest generalizing seen lhs names with
  | nil => rfl
  | cons c rest ih =>
      rw [List.append_cons] at hnew
      have hc : c.tableAlias ∉ seen.map AliasedChild.tableAlias := by
        rw [List.map_append, List.map_append, List.nodup_append, List.nodup_append] at hnew
        exact fun hmem => hnew.1.2.2 _ hmem _ List.mem_cons_self rfl
      have hcall : c ∈ all := hrest c List.mem_cons_self
      -- a column of the pair is on the left when its child was joined before
      have hleft : ∀ col : Column, usage.keeps col.key = true →
          (∀ d ∈ all, d.tableAlias = col.tableAlias → col.key ∈ d.keys) →
          (col.key ∈ lhs.getColumns.map Column.key ↔ col.tableAlias ∈ names) := by
        intro col hkeeps hhas
        rw [hnames]
        constructor
        · intro hmem
          obtain ⟨x, hx, hkey⟩ := List.mem_map.mp hmem
          obtain ⟨d, hd, halias⟩ := h.ofSeen x hx
          exact List.mem_map.mpr ⟨d, hd, halias.trans (congrArg Prod.fst hkey)⟩
        · intro hmem
          obtain ⟨d, hd, halias⟩ := List.mem_map.mp hmem
          exact h.kept _ hkeeps d hd (hhas d (hseen d hd) halias)
      have hright : ∀ col : Column,
          (∀ d ∈ all, d.tableAlias = col.tableAlias → col.key ∈ d.keys) →
          (col.key ∈ c.iter.getColumns.map Column.key ↔ col.tableAlias = c.tableAlias) := by
        intro col hhas
        constructor
        · exact fun hmem => AliasedChild.keys_alias hmem
        · exact fun halias => hhas c hcall halias.symm
      have hiff : (equality lhs.getColumns c.iter.getColumns p).isSome = true ↔
          (p.1.tableAlias ∈ names ∧ p.2.tableAlias = c.tableAlias) ∨
            (p.2.tableAlias ∈ names ∧ p.1.tableAlias = c.tableAlias) := by
        rw [equality_isSome c.ofAlias (h.apart hc), hleft p.1 hkept.1 hfirst,
          hleft p.2 hkept.2 hsecond, hright p.1 hfirst, hright p.2 hsecond]
      have hseen' : ∀ d ∈ seen ++ [c], d ∈ all := by
        intro d hd
        rcases List.mem_append.mp hd with hd | hd
        · exact hseen d hd
        · exact List.mem_singleton.mp hd ▸ hcall
      have hnames' : ∀ a, a ∈ c.tableAlias :: names ↔
          a ∈ (seen ++ [c]).map AliasedChild.tableAlias := by
        intro a
        simp [hnames, or_comm]
      have hcovers : Covers usage (joinStep usage joins lhs c.iter) (seen ++ [c]) := h.step
      have hlater := ih hseen' (fun d hd => hrest d (List.mem_cons_of_mem c hd)) hnew hcovers
        (c.tableAlias :: names) hnames'
      rw [List.map_cons, List.map_cons, timesEnforced, crossings, hlater]
      by_cases hmeet : (equality lhs.getColumns c.iter.getColumns p).isSome = true
      · rw [if_pos hmeet, if_pos (hiff.mp hmeet)]
      · rw [if_neg hmeet, if_neg (mt hiff.mpr hmeet)]

end Chain

/-! ## The order of the children -/

theorem reorder_eq {order : List Nat} {children : List AliasedChild}
    (h : ∀ i ∈ order, i < children.length) :
    reorder order (children.map fun c => c.iter) =
      .ok ((order.filterMap fun i => children[i]?).map fun c => c.iter) := by
  induction order with
  | nil => rfl
  | cons i order ih =>
      have hi : i < children.length := h i List.mem_cons_self
      have hrest := ih fun j hj => h j (List.mem_cons_of_mem i hj)
      have hchild : children[i]? = some children[i] := List.getElem?_eq_getElem hi
      unfold reorder at hrest ⊢
      rw [List.mapM_cons, hrest, List.filterMap_cons_some hchild]
      simp only [List.getElem?_map, hchild, Option.map_some]
      rfl

/-- The children by their positions. -/
theorem filterMap_range' {α : Type} (before cs : List α) :
    (List.range' before.length cs.length).filterMap (fun i => (before ++ cs)[i]?) = cs := by
  induction cs generalizing before with
  | nil => rfl
  | cons c cs ih =>
      have hrest := ih (before ++ [c])
      rw [List.length_append, List.length_singleton, List.append_assoc, List.singleton_append]
        at hrest
      have hfirst : (before ++ c :: cs)[before.length]? = some c := by simp
      rw [List.length_cons, List.range'_succ, List.filterMap_cons_some hfirst, hrest]

theorem ordered_perm {order : List Nat} {children : List AliasedChild}
    (h : order.Perm (List.range children.length)) :
    (order.filterMap fun i => children[i]?).Perm children := by
  have hall : (List.range children.length).filterMap (fun i => children[i]?) = children := by
    rw [List.range_eq_range']
    exact filterMap_range' [] children
  have hperm : (order.filterMap fun i => children[i]?).Perm _ := h.filterMap _
  rwa [hall] at hperm

/-! ## The plan -/

section Plan

variable {joins : List JoinPair} {children : List AliasedChild}

theorem JoinPlanOk.apart (h : JoinPlanOk joins children) {p : JoinPair} (hp : p ∈ joins) :
    p.1.tableAlias ≠ p.2.tableAlias := by
  obtain ⟨i, j, c, d, hij, hi, hj, hc, hd⟩ := h.existing p hp
  have hci : (children.map AliasedChild.tableAlias)[i]? = some p.1.tableAlias := by
    rw [List.getElem?_map, hi]
    exact congrArg some (AliasedChild.keys_alias hc).symm
  have hdj : (children.map AliasedChild.tableAlias)[j]? = some p.2.tableAlias := by
    rw [List.getElem?_map, hj]
    exact congrArg some (AliasedChild.keys_alias hd).symm
  intro heq
  obtain ⟨hlt, _⟩ := List.getElem?_eq_some_iff.mp hci
  exact hij ((List.getElem?_inj hlt h.aliases).mp (by rw [hci, hdj, heq]))

theorem JoinPlanOk.stepOk (h : JoinPlanOk joins children) (usage : ColumnUsage) :
    StepOk (usage.addAll joins) joins children where
  kept _ hp := ColumnUsage.addAll_keeps hp
  apart _ hp := h.apart hp
  used c hc := by
    obtain ⟨p, hp, hpart⟩ := h.takesPart c hc
    have hkept : (usage.addAll joins).keeps p.1.key = true ∧
        (usage.addAll joins).keeps p.2.key = true := ColumnUsage.addAll_keeps hp
    rcases hpart with hmem | hmem
    · obtain ⟨col, hcol, hkey⟩ := List.mem_map.mp hmem
      exact ⟨col, hcol, (congrArg _ hkey).trans hkept.1⟩
    · obtain ⟨col, hcol, hkey⟩ := List.mem_map.mp hmem
      exact ⟨col, hcol, (congrArg _ hkey).trans hkept.2⟩

/-- The child with the alias of a pair has its column. -/
theorem JoinPlanOk.has (h : JoinPlanOk joins children) {p : JoinPair} (hp : p ∈ joins) :
    (∀ c ∈ children, c.tableAlias = p.1.tableAlias → p.1.key ∈ c.keys) ∧
      ∀ c ∈ children, c.tableAlias = p.2.tableAlias → p.2.key ∈ c.keys := by
  obtain ⟨i, j, c, d, _, hi, hj, hc, hd⟩ := h.existing p hp
  have hinj := List.inj_on_of_nodup_map h.aliases
  constructor
  · intro x hx halias
    have heq := hinj hx (List.mem_of_getElem? hi) (halias.trans (AliasedChild.keys_alias hc))
    exact heq ▸ hc
  · intro x hx halias
    have heq := hinj hx (List.mem_of_getElem? hj) (halias.trans (AliasedChild.keys_alias hd))
    exact heq ▸ hd

theorem JoinPlanOk.tablesApart (h : JoinPlanOk joins children) :
    (children.map AliasedChild.rowMaps).Pairwise TablesApart := by
  refine List.pairwise_map.mpr ((List.pairwise_map.mp h.aliases).imp ?_)
  intro c d hne f hf g hg k
  by_contra hboth
  obtain ⟨hfk, hgk⟩ := not_or.mp hboth
  exact hne ((AliasedChild.rowMaps_alias hf hfk).symm.trans (AliasedChild.rowMaps_alias hg hgk))

/-- The two children of a pair meet once. -/
theorem JoinPlanOk.crossings_one (h : JoinPlanOk joins children) {c : AliasedChild}
    {rest : List AliasedChild} (hperm : (c :: rest).Perm children) {p : JoinPair} (hp : p ∈ joins) :
    crossings p.1.tableAlias p.2.tableAlias [c.tableAlias]
      (rest.map AliasedChild.tableAlias) = 1 := by
  have haliases : ((c :: rest).map AliasedChild.tableAlias).Nodup :=
    (hperm.map _).nodup_iff.mpr h.aliases
  obtain ⟨hc, hrest⟩ := List.nodup_cons.mp haliases
  have hmem : ∀ {k : ColumnKey} {d : AliasedChild} {i : Nat}, children[i]? = some d → k ∈ d.keys →
      k.1 ∈ [c.tableAlias] ∨ k.1 ∈ rest.map AliasedChild.tableAlias := by
    intro k d i hd hk
    have hd : d ∈ c :: rest := hperm.mem_iff.mpr (List.mem_of_getElem? hd)
    rw [AliasedChild.keys_alias hk]
    rcases List.mem_cons.mp hd with rfl | hd
    · exact .inl List.mem_cons_self
    · exact .inr (List.mem_map_of_mem hd)
  obtain ⟨i, j, d, e, _, hi, hj, hd, he⟩ := h.existing p hp
  have hdisjoint : [c.tableAlias].Disjoint (rest.map AliasedChild.tableAlias) :=
    List.disjoint_left.mpr fun a ha => List.mem_singleton.mp ha ▸ hc
  have hcount := crossings_eq (h.apart hp) _ _ hdisjoint hrest (hmem hi hd) (hmem hj he)
  rw [if_neg] at hcount
  · exact hcount
  · rintro ⟨ha, hb⟩
    exact h.apart hp ((List.mem_singleton.mp ha).trans (List.mem_singleton.mp hb).symm)

/-- The rows of the plan: a record of each child, in every way that satisfies the
equalities. -/
def satisfying (joins : List JoinPair) (children : List AliasedChild) :
    List (Row ColumnKey Value) :=
  (product (children.map AliasedChild.rowMaps)).filter (Row.sat (joinKeys joins))

/-- What the lowered plan delivers, for any order of the children. -/
theorem visitJoin_satisfying (usage : ColumnUsage) (order : List Nat)
    (h : JoinPlanOk joins children) (horder : order.Perm (List.range children.length)) :
    ∃ first rest it out,
      reorder order (children.map fun c => c.iter) = .ok (first :: rest) ∧
      visitJoin order usage joins (children.map fun c => c.iter) = .ok (it, usage) ∧
      Delivers it out ∧ Aligned it out ∧
      (out.map (rowOf it)).Perm
        ((satisfying joins children).map (Row.restrict (usage.addAll joins).keeps)) ∧
      (out.map fun r => Row.restrict usage.keeps (rowOf it r)).Perm
        ((satisfying joins children).map (Row.restrict usage.keeps)) ∧
      ∀ p ∈ joins, timesEnforced (usage.addAll joins) joins p first rest = 1 := by
  have hperm := ordered_perm horder
  have hreorder : reorder order (children.map fun c => c.iter) = _ :=
    reorder_eq fun i hi => List.mem_range.mp (horder.mem_iff.mp hi)
  match hordered : order.filterMap fun i => children[i]? with
  | [] =>
      rw [hordered] at hperm
      have htwo := h.two
      rw [← hperm.length_eq] at htwo
      cases htwo
  | c :: rest =>
      rw [hordered] at hperm hreorder
      rw [List.map_cons] at hreorder
      have haliases : (([c] ++ rest).map AliasedChild.tableAlias).Nodup :=
        (hperm.map _).nodup_iff.mpr h.aliases
      have hstep := h.stepOk usage
      have hrest : ∀ d ∈ rest, d ∈ children :=
        fun d hd => hperm.mem_iff.mp (List.mem_cons_of_mem c hd)
      obtain ⟨out, hchain⟩ := (Chain.first hstep c).run hstep rest hrest haliases
      rw [foldl_times, ← product_cons, ← List.map_cons] at hchain
      have hused : ∀ col ∈ ((rest.map fun c => c.iter).foldl
          (joinStep (usage.addAll joins) joins) c.iter).getColumns,
          (usage.addAll joins).uses col = true := by
        have htwo := h.two
        rw [← hperm.length_eq] at htwo
        cases rest with
        | nil => exact absurd htwo (Nat.not_succ_le_self 1)
        | cons d rest => exact foldl_joinStep_used c.iter d.iter _
      have hproduct := product_perm (hperm.map AliasedChild.rowMaps)
        ((hperm.map AliasedChild.rowMaps).pairwise_iff TablesApart.symm |>.mpr h.tablesApart)
      have hrows : out.map (rowOf _) = _ :=
        (List.map_congr_left fun r _ => (rowOf_used hused).symm).trans
          (List.map_map.symm.trans hchain.result)
      have hsatisfying : (out.map (rowOf _)).Perm
          ((satisfying joins children).map (Row.restrict (usage.addAll joins).keeps)) :=
        List.Perm.trans (.of_eq hrows) ((hproduct.filter _).map _)
      refine ⟨c.iter, _, _, out, hreorder, ?_, hchain.delivers,
        hchain.aligned, hsatisfying, ?_, fun p hp => ?_⟩
      · rw [visitJoin, hreorder, Outcome.ok_bind, ColumnUsage.removeAll_addAll]
      · have hmap := hsatisfying.map (Row.restrict usage.keeps)
        rw [List.map_map, List.map_map] at hmap
        have hkeeps : Row.restrict usage.keeps ∘ Row.restrict (usage.addAll joins).keeps =
            (Row.restrict usage.keeps : Row ColumnKey Value → _) :=
          funext fun f => Row.restrict_restrict (fun _ hk => ColumnUsage.keeps_addAll hk) f
        rw [hkeeps] at hmap
        exact hmap
      · obtain ⟨hfirst, hsecond⟩ := h.has hp
        have hcovers := (Chain.first hstep c).covers
        have hseen : ∀ d ∈ [c], d ∈ children := fun d hd =>
          hperm.mem_iff.mp (List.mem_singleton.mp hd ▸ List.mem_cons_self)
        exact (timesEnforced_eq (hstep.kept p hp) hfirst hsecond rest hseen hrest haliases hcovers
          [c.tableAlias] fun a => Iff.rfl).trans (h.crossings_one hperm hp)

end Plan

/-- A table of one row, with its alias. -/
def oneRowAliased (tableAlias : List UInt8) (v : Int) : AliasedChild where
  toChild := oneRow tableAlias v
  tableAlias := tableAlias
  ofAlias := by simp [oneRow, QueryIter.getColumns]

/-- `WHERE x.a == y.a`, with `y` first. -/
theorem visitJoin_satisfying_two :
    ∃ first rest it out,
      reorder [1, 0] ([oneRowAliased [120] 1, oneRowAliased [121] 1].map fun c => c.iter) =
        .ok (first :: rest) ∧
      visitJoin [1, 0] (usesOnly [120])
        [(⟨[120], [116], [97], .int, 0⟩, ⟨[121], [116], [97], .int, 0⟩)]
        ([oneRowAliased [120] 1, oneRowAliased [121] 1].map fun c => c.iter) =
        .ok (it, usesOnly [120]) ∧ Delivers it out := by
  have hok : JoinPlanOk [(⟨[120], [116], [97], .int, 0⟩, ⟨[121], [116], [97], .int, 0⟩)]
      [oneRowAliased [120] 1, oneRowAliased [121] 1] := by
    refine ⟨le_rfl, by decide, fun p hp => ?_, fun c hc => ?_⟩
    · obtain rfl := List.mem_singleton.mp hp
      exact ⟨0, 1, _, _, Nat.zero_ne_one, rfl, rfl, List.mem_cons_self, List.mem_cons_self⟩
    · refine ⟨_, List.mem_cons_self, ?_⟩
      rcases List.mem_pair.mp hc with rfl | rfl
      · exact .inl List.mem_cons_self
      · exact .inr List.mem_cons_self
  obtain ⟨first, rest, it, out, hreorder, hvisit, hdelivers, _⟩ :=
    visitJoin_satisfying (usesOnly [120]) [1, 0] hok (List.Perm.swap 0 1 [])
  exact ⟨first, rest, it, out, hreorder, hvisit, hdelivers⟩

end Iic3413Db.Query
