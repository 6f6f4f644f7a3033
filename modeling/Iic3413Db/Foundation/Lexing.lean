/-
  Foundation/Lexing.lean --- lexers from ordered lists of regular expressions.

  At each place the longest word that some rule matches is taken, and of the rules
  that match it the first.  A rule may have words it matches at the end of the input
  only, and a rule that is not greedy matches no word that goes on after a shorter
  one.  Nothing here mentions the database.
-/
import Mathlib.Computability.RegularExpressions

set_option autoImplicit false

namespace Iic3413Db.Foundation

open RegularExpression

/-! ## Words of a regular expression -/

section Expressions

variable {α : Type}

/-- The one word `w`. -/
def exactly (w : List α) : RegularExpression α := (w.map char).prod

/-- One character of a list. -/
def oneOf (cs : List α) : RegularExpression α := (cs.map char).sum

/-- A character of each list in turn. -/
def inEach (css : List (List α)) : RegularExpression α := (css.map oneOf).prod

variable {w x : List α} {cs : List α} {css : List (List α)} {P Q : RegularExpression α}

theorem mem_add_matches : x ∈ (P + Q).matches' ↔ x ∈ P.matches' ∨ x ∈ Q.matches' := .rfl

theorem mem_mul_matches :
    x ∈ (P * Q).matches' ↔ ∃ u ∈ P.matches', ∃ v ∈ Q.matches', u ++ v = x := Language.mem_mul

theorem mem_one_matches : x ∈ (1 : RegularExpression α).matches' ↔ x = [] := .rfl

theorem notMem_zero_matches : x ∉ (0 : RegularExpression α).matches' := Language.notMem_zero x

theorem mem_char_matches {c : α} : x ∈ (char c).matches' ↔ x = [c] := .rfl

theorem mem_exactly : x ∈ (exactly w).matches' ↔ x = w := by
  induction w generalizing x with
  | nil => exact mem_one_matches
  | cons c w ih =>
      have hcons : exactly (c :: w) = char c * exactly w := List.prod_cons
      rw [hcons, mem_mul_matches]
      constructor
      · rintro ⟨u, hu, v, hv, rfl⟩
        rw [mem_char_matches.mp hu, ih.mp hv]
        rfl
      · rintro rfl
        exact ⟨[c], rfl, w, ih.mpr rfl, rfl⟩

theorem mem_oneOf : x ∈ (oneOf cs).matches' ↔ ∃ c ∈ cs, x = [c] := by
  induction cs with
  | nil =>
      have hnil : oneOf ([] : List α) = 0 := rfl
      rw [hnil]
      exact ⟨fun h => absurd h notMem_zero_matches, fun ⟨c, hc, _⟩ => absurd hc List.not_mem_nil⟩
  | cons c cs ih =>
      have hcons : oneOf (c :: cs) = char c + oneOf cs := List.sum_cons
      rw [hcons, mem_add_matches, ih, mem_char_matches, List.exists_mem_cons_iff]

theorem mem_star_oneOf : x ∈ (star (oneOf cs)).matches' ↔ ∀ c ∈ x, c ∈ cs := by
  rw [matches'_star, Language.mem_kstar]
  constructor
  · rintro ⟨words, rfl, hwords⟩ c hc
    obtain ⟨u, hu, hc⟩ := List.mem_flatten.mp hc
    obtain ⟨d, hd, rfl⟩ := mem_oneOf.mp (hwords u hu)
    rw [List.mem_singleton.mp hc]
    exact hd
  · intro hall
    refine ⟨x.map fun c => [c], ?_, fun u hu => ?_⟩
    · induction x with
      | nil => rfl
      | cons c x ih =>
          rw [List.map_cons, List.flatten_cons, ← ih fun d hd => hall d (List.mem_cons_of_mem c hd)]
          rfl
    · obtain ⟨c, hc, rfl⟩ := List.mem_map.mp hu
      exact mem_oneOf.mpr ⟨c, hall c hc, rfl⟩

theorem mem_inEach : x ∈ (inEach css).matches' ↔ List.Forall₂ (fun c cs => c ∈ cs) x css := by
  induction css generalizing x with
  | nil =>
      rw [List.forall₂_nil_right_iff]
      exact mem_one_matches
  | cons cs css ih =>
      have hcons : inEach (cs :: css) = oneOf cs * inEach css := List.prod_cons
      rw [hcons, mem_mul_matches]
      constructor
      · rintro ⟨u, hu, v, hv, rfl⟩
        obtain ⟨c, hc, rfl⟩ := mem_oneOf.mp hu
        exact .cons hc (ih.mp hv)
      · intro h
        cases h with
        | @cons c _ v _ hc hv => exact ⟨[c], mem_oneOf.mpr ⟨c, hc, rfl⟩, v, ih.mpr hv, rfl⟩

/-- A word of a star is empty or begins with a word of it. -/
theorem mem_star_cases (h : x ∈ (star P).matches') :
    x = [] ∨ ∃ u v, x = u ++ v ∧ u ∈ P.matches' ∧ v ∈ (star P).matches' := by
  rw [matches'_star, Language.mem_kstar] at h
  obtain ⟨words, rfl, hwords⟩ := h
  cases words with
  | nil => exact .inl rfl
  | cons u words =>
      refine .inr ⟨u, words.flatten, rfl, hwords u List.mem_cons_self, ?_⟩
      exact Language.mem_kstar.mpr
        ⟨words, rfl, fun v hv => hwords v (List.mem_cons_of_mem u hv)⟩

theorem nil_mem_star : [] ∈ (star P).matches' := Language.nil_mem_kstar _

theorem append_mem_star {u v : List α} (hu : u ∈ P.matches') (hv : v ∈ (star P).matches') :
    u ++ v ∈ (star P).matches' := by
  rw [matches'_star, Language.mem_kstar] at hv ⊢
  obtain ⟨words, rfl, hwords⟩ := hv
  exact ⟨u :: words, rfl, List.forall_mem_cons.mpr ⟨hu, hwords⟩⟩

end Expressions

/-! ## Rules -/

/-- A rule of a lexer. -/
structure Rule (α τ : Type) where
  token : τ
  expr : RegularExpression α
  /-- what it also matches, up to the end of the input -/
  atEnd : RegularExpression α := 0
  greedy : Bool := true

section Rules

variable {α τ : Type} [DecidableEq α]

/-- The rule matches the word anywhere. -/
def Rule.matches (r : Rule α τ) (w : List α) : Bool :=
  r.expr.rmatch w &&
    (r.greedy || (List.range w.length).all fun n => !r.expr.rmatch (w.take n))

/-- The rule matches the first `n` characters. -/
def Rule.accepts (r : Rule α τ) (input : List α) (n : Nat) : Bool :=
  r.matches (input.take n) || decide (n = input.length) && r.atEnd.rmatch input

variable (rules : List (Rule α τ))

/-- The first rule that matches `n` characters. -/
def firstAt (input : List α) (n : Nat) : Option τ :=
  (rules.find? fun r => r.accepts input n).map Rule.token

/-- The token at the start of the input, and how long it is. -/
def munch (input : List α) : Option (τ × Nat) :=
  (List.range input.length).reverse.findSome? fun n =>
    (firstAt rules input (n + 1)).map fun token => (token, n + 1)

/-- At most `fuel` tokens. -/
def tokenizeFrom : Nat → List α → Option (List (τ × List α))
  | _, [] => some []
  | 0, _ :: _ => none
  | fuel + 1, c :: cs =>
      match munch rules (c :: cs) with
      | none => none
      | some (token, n) =>
          (tokenizeFrom fuel ((c :: cs).drop n)).map fun tokens =>
            (token, (c :: cs).take n) :: tokens

/-- The tokens of the input, with their texts. -/
def tokenize (input : List α) : Option (List (τ × List α)) :=
  tokenizeFrom rules input.length input

end Rules

/-! ## Longest match -/

section Munch

variable {α τ : Type} [DecidableEq α] {rules : List (Rule α τ)} {r : Rule α τ}
  {input w rest : List α} {n : Nat} {token : τ}

/-- A word that a rule matches is a word of one of its expressions. -/
theorem Rule.mem_of_accepts (h : r.accepts input n = true) :
    input.take n ∈ r.expr.matches' ∨ input.take n ∈ r.atEnd.matches' := by
  rw [Rule.accepts, Bool.or_eq_true, Bool.and_eq_true, decide_eq_true_eq] at h
  rcases h with h | ⟨rfl, h⟩
  · rw [Rule.matches, Bool.and_eq_true] at h
    exact .inl ((rmatch_iff_matches' _ _).mp h.1)
  · rw [List.take_length]
    exact .inr ((rmatch_iff_matches' _ _).mp h)

/-- A greedy rule matches the words of its expression. -/
theorem Rule.accepts_append (hgreedy : r.greedy = true) (hend : r.atEnd = 0) :
    r.accepts (w ++ rest) w.length = true ↔ w ∈ r.expr.matches' := by
  have hnone : r.atEnd.rmatch (w ++ rest) = false := by
    by_contra h
    rw [Bool.not_eq_false, rmatch_iff_matches', hend] at h
    exact notMem_zero_matches h
  rw [Rule.accepts, List.take_left, Rule.matches, hgreedy, hnone, ← rmatch_iff_matches']
  simp

theorem firstAt_cons_of_mem (hgreedy : r.greedy = true) (hend : r.atEnd = 0)
    (hw : w ∈ r.expr.matches') : firstAt (r :: rules) (w ++ rest) w.length = some r.token := by
  have hacc : r.accepts (w ++ rest) w.length = true := (Rule.accepts_append hgreedy hend).mpr hw
  rw [firstAt, List.find?_cons, hacc]
  rfl

theorem firstAt_cons_of_notMem (hgreedy : r.greedy = true) (hend : r.atEnd = 0)
    (hw : w ∉ r.expr.matches') :
    firstAt (r :: rules) (w ++ rest) w.length = firstAt rules (w ++ rest) w.length := by
  have hacc : r.accepts (w ++ rest) w.length = false := by
    rw [← Bool.not_eq_true, Rule.accepts_append hgreedy hend]
    exact hw
  rw [firstAt, List.find?_cons, hacc]
  rfl

theorem firstAt_eq_none : firstAt rules input n = none ↔ ∀ r ∈ rules, r.accepts input n = false := by
  simp [firstAt]

theorem exists_of_firstAt (h : firstAt rules input n = some token) :
    ∃ r ∈ rules, r.token = token ∧ r.accepts input n = true := by
  obtain ⟨r, hr, htoken⟩ := Option.map_eq_some_iff.mp h
  have hacc := List.find?_some (p := fun r : Rule α τ => r.accepts input n) hr
  exact ⟨r, List.mem_of_find?_eq_some hr, htoken, hacc⟩

/-- The token is the first rule's that matches the longest word. -/
theorem munch_eq_some : munch rules input = some (token, n) ↔
    0 < n ∧ n ≤ input.length ∧ firstAt rules input n = some token ∧
      ∀ m, n < m → m ≤ input.length → firstAt rules input m = none := by
  unfold munch
  have hsearch : ∀ len : Nat, ((List.range len).reverse.findSome? fun k =>
      (firstAt rules input (k + 1)).map fun token => (token, k + 1)) = some (token, n) ↔
      0 < n ∧ n ≤ len ∧ firstAt rules input n = some token ∧
        ∀ m, n < m → m ≤ len → firstAt rules input m = none := by
    intro len
    induction len with
    | zero =>
        simp only [List.range_zero, List.reverse_nil, List.findSome?_nil]
        refine ⟨fun h => (by cases h), fun h => ?_⟩
        obtain ⟨hpos, hle, _⟩ := h
        omega
    | succ len ih =>
        rw [List.range_succ, List.reverse_append, List.reverse_singleton, List.singleton_append,
          List.findSome?_cons]
        cases hlast : firstAt rules input (len + 1) with
        | none =>
            simp only [Option.map_none]
            rw [ih]
            constructor
            · rintro ⟨hpos, hle, hfirst, hnone⟩
              refine ⟨hpos, by omega, hfirst, fun m hm hm' => ?_⟩
              by_cases heq : m = len + 1
              · rw [heq, hlast]
              · exact hnone m hm (by omega)
            · rintro ⟨hpos, hle, hfirst, hnone⟩
              have hne : n ≠ len + 1 := by
                rintro rfl
                rw [hlast] at hfirst
                cases hfirst
              exact ⟨hpos, by omega, hfirst, fun m hm hm' => hnone m hm (by omega)⟩
        | some last =>
            simp only [Option.map_some, Option.some.injEq, Prod.mk.injEq]
            constructor
            · rintro ⟨rfl, rfl⟩
              exact ⟨by omega, le_refl _, hlast, fun m hm hm' => by omega⟩
            · rintro ⟨hpos, hle, hfirst, hnone⟩
              by_cases heq : n = len + 1
              · subst heq
                rw [hlast] at hfirst
                exact ⟨Option.some.inj hfirst, rfl⟩
              · have hno := hnone (len + 1) (by omega) (le_refl _)
                rw [hlast] at hno
                cases hno
  exact hsearch input.length

/-- Nothing is matched but words whose length is at most `n`. -/
theorem munch_append (hw : w ≠ []) (hfirst : firstAt rules (w ++ rest) w.length = some token)
    (hlongest : ∀ r ∈ rules, ∀ m, r.accepts (w ++ rest) m = true → m ≤ (w ++ rest).length →
      m ≤ w.length) : munch rules (w ++ rest) = some (token, w.length) := by
  refine munch_eq_some.mpr ⟨List.length_pos_of_ne_nil hw, by simp, hfirst, fun m hm hle => ?_⟩
  rw [firstAt_eq_none]
  intro r hr
  by_contra hacc
  have := hlongest r hr m (by simpa using hacc) hle
  omega

end Munch

/-! ## Token lists -/

section Lexes

variable {α τ : Type} [DecidableEq α] {rules : List (Rule α τ)} {input w rest : List α} {token : τ}
  {tokens tokens' : List (τ × List α)}

/-- The input splits into these tokens. -/
inductive Lexes (rules : List (Rule α τ)) : List α → List (τ × List α) → Prop
  | nil : Lexes rules [] []
  | cons {w rest : List α} {token : τ} {tokens : List (τ × List α)} (hw : w ≠ [])
      (hmunch : munch rules (w ++ rest) = some (token, w.length))
      (hrest : Lexes rules rest tokens) : Lexes rules (w ++ rest) ((token, w) :: tokens)

theorem lexes_of_tokenizeFrom {fuel : Nat} (h : tokenizeFrom rules fuel input = some tokens) :
    Lexes rules input tokens := by
  induction fuel generalizing input tokens with
  | zero =>
      cases input with
      | nil =>
          cases Option.some.inj h
          exact .nil
      | cons c cs => cases h
  | succ fuel ih =>
      cases input with
      | nil =>
          cases Option.some.inj h
          exact .nil
      | cons c cs =>
          rw [tokenizeFrom] at h
          cases hm : munch rules (c :: cs) with
          | none => simp [hm] at h
          | some found =>
              obtain ⟨token, n⟩ := found
              obtain ⟨hpos, hle, _, _⟩ := munch_eq_some.mp hm
              simp only [hm] at h
              obtain ⟨more, hmore, rfl⟩ := Option.map_eq_some_iff.mp h
              have hsplit := List.take_append_drop n (c :: cs)
              have hlen : ((c :: cs).take n).length = n := by
                rw [List.length_take]
                omega
              have hne : (c :: cs).take n ≠ [] := by
                intro hnil
                rw [hnil] at hlen
                simp at hlen
                omega
              have hmunch : munch rules ((c :: cs).take n ++ (c :: cs).drop n) =
                  some (token, ((c :: cs).take n).length) := by rw [hsplit, hlen, hm]
              have hcons := Lexes.cons hne hmunch (ih hmore)
              rwa [hsplit] at hcons

theorem tokenizeFrom_of_lexes (h : Lexes rules input tokens) :
    ∀ fuel, input.length ≤ fuel → tokenizeFrom rules fuel input = some tokens := by
  induction h with
  | nil =>
      intro fuel _
      cases fuel <;> rfl
  | @cons w rest token tokens hw hmunch _ ih =>
      intro fuel hfuel
      cases hinput : w ++ rest with
      | nil => exact absurd (List.append_eq_nil_iff.mp hinput).1 hw
      | cons c cs =>
          have hpos := List.length_pos_of_ne_nil hw
          rw [List.length_append] at hfuel
          cases fuel with
          | zero => omega
          | succ fuel =>
              rw [tokenizeFrom, ← hinput, hmunch]
              dsimp only
              rw [List.drop_left, List.take_left, ih fuel (by omega)]
              rfl

/-- The function and the relation agree. -/
theorem tokenize_eq_some : tokenize rules input = some tokens ↔ Lexes rules input tokens :=
  ⟨lexes_of_tokenizeFrom, fun h => tokenizeFrom_of_lexes h _ (le_refl _)⟩

/-- The first token of a text is what the longest match says. -/
theorem Lexes.head (h : Lexes rules input ((token, w) :: tokens)) :
    munch rules input = some (token, w.length) := by
  cases h with
  | cons hw hmunch hrest => exact hmunch

/-- A text splits in one way. -/
theorem Lexes.unique (h : Lexes rules input tokens) (h' : Lexes rules input tokens') :
    tokens = tokens' :=
  Option.some.inj ((tokenize_eq_some.mpr h).symm.trans (tokenize_eq_some.mpr h'))

/-- The texts of the tokens are the input. -/
theorem Lexes.flatten (h : Lexes rules input tokens) : (tokens.map Prod.snd).flatten = input := by
  induction h with
  | nil => rfl
  | cons _ _ _ ih => rw [List.map_cons, List.flatten_cons, ih]

theorem Lexes.ne_nil (h : Lexes rules input tokens) : ∀ t ∈ tokens, t.2 ≠ [] := by
  induction h with
  | nil => simp
  | cons hw _ _ ih => exact List.forall_mem_cons.mpr ⟨hw, ih⟩

/-- The tokens after some others are those of a text. -/
theorem Lexes.drop {pre : List (τ × List α)} (h : Lexes rules input (pre ++ tokens)) :
    ∃ rest, Lexes rules rest tokens := by
  induction pre generalizing input with
  | nil => exact ⟨input, h⟩
  | cons t pre ih =>
      cases h with
      | cons _ _ hrest => exact ih hrest

/-- The first token is known when the longest match is. -/
theorem lexes_append_iff (hw : w ≠ []) (hmunch : munch rules (w ++ rest) = some (token, w.length)) :
    Lexes rules (w ++ rest) tokens ↔ ∃ more, tokens = (token, w) :: more ∧ Lexes rules rest more := by
  constructor
  · intro h
    generalize hinput : w ++ rest = input at h hmunch
    cases h with
    | nil => exact absurd (List.append_eq_nil_iff.mp hinput).1 hw
    | @cons w' rest' token' more hw' hmunch' hrest =>
        rw [hmunch', Option.some.injEq, Prod.mk.injEq] at hmunch
        obtain ⟨rfl, hlen⟩ := hmunch
        obtain ⟨rfl, rfl⟩ := List.append_inj hinput hlen.symm
        exact ⟨more, rfl, hrest⟩
  · rintro ⟨more, rfl, hmore⟩
    exact .cons hw hmunch hmore

end Lexes

end Iic3413Db.Foundation
