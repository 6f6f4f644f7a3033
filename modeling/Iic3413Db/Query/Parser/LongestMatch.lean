/-
  Query/Parser/LongestMatch.lean --- the token at the start of a text.

  `Shape` is what some rule of the lexer matches, so it bounds a token by its first
  character.  With the first rule that matches, each kind of token then has one lemma:
  the text it is, if the rest of the input does not go on with it.
-/
import Iic3413Db.Query.Parser.Lexer

set_option autoImplicit false

namespace Iic3413Db.Query

open Iic3413Db.Foundation
open RegularExpression (char star)

/-! ## The words of the rules -/

section Words

variable {x : List UInt8}

theorem mem_keywordExpr {s : String} (hs : ∀ c ∈ ascii s, 65 ≤ c ∧ c ≤ 90) :
    x ∈ (keywordExpr s).matches' ↔ ascii s = x.map toUpper := by
  rw [keywordExpr, mem_inEach]
  generalize ascii s = k at hs
  induction k generalizing x with
  | nil =>
      rw [List.map_nil, List.forall₂_nil_right_iff]
      cases x <;> simp
  | cons d k ih =>
      obtain ⟨hd, hk⟩ := List.forall_mem_cons.mp hs
      cases x with
      | nil => simp
      | cons c x =>
          rw [List.map_cons, List.forall₂_cons, List.map_cons, List.cons.injEq, ih hk,
            ← toUpper_eq hd]
          exact and_congr_left fun _ => eq_comm

theorem mem_integerExpr : x ∈ integerExpr.matches' ↔
    ∃ ds, ds ≠ [] ∧ (∀ d ∈ ds, isDigit d = true) ∧ (x = ds ∨ x = 45 :: ds) := by
  rw [integerExpr, mem_mul_matches]
  constructor
  · rintro ⟨u, hu, v, hv, rfl⟩
    obtain ⟨c, cs, rfl, hc, hcs⟩ := mem_charset_star.mp hv
    refine ⟨c :: cs, by simp, List.forall_mem_cons.mpr ⟨hc, hcs⟩, ?_⟩
    rcases mem_add_matches.mp hu with hu | hu
    · rw [mem_char_matches.mp hu]
      exact .inr rfl
    · rw [mem_one_matches.mp hu]
      exact .inl rfl
  · rintro ⟨ds, hne, hds, hx⟩
    obtain ⟨c, cs, rfl⟩ := List.exists_cons_of_ne_nil hne
    have hv : c :: cs ∈ (charset isDigit * star (charset isDigit)).matches' :=
      mem_charset_star.mpr ⟨c, cs, rfl, List.forall_mem_cons.mp hds⟩
    rcases hx with rfl | rfl
    · exact ⟨[], mem_add_matches.mpr (.inr rfl), _, hv, rfl⟩
    · exact ⟨[45], mem_add_matches.mpr (.inl rfl), _, hv, rfl⟩

theorem mem_identifierExpr : x ∈ identifierExpr.matches' ↔
    ∃ c cs, x = c :: cs ∧ isLetter c = true ∧ ∀ d ∈ cs, isWordChar d = true := mem_charset_star

theorem mem_spaceExpr : x ∈ spaceExpr.matches' ↔
    ∃ c cs, x = c :: cs ∧ isSpace c = true ∧ ∀ d ∈ cs, isSpace d = true := mem_charset_star

/-- Every quote has a backslash before it. -/
def QuotesEscaped (body : List UInt8) : Prop :=
  ∀ pre post, body = pre ++ 34 :: post → pre.getLast? = some 92

theorem QuotesEscaped.nil : QuotesEscaped [] := fun _ _ hsplit => by simp at hsplit

theorem QuotesEscaped.cons {c : UInt8} {cs : List UInt8} (hc : c ≠ 34) (h : QuotesEscaped cs) :
    QuotesEscaped (c :: cs) := by
  intro pre post hsplit
  match pre, hsplit with
  | [], hsplit => exact absurd (List.cons.inj hsplit).1 hc
  | [d], hsplit =>
      have hlast := h [] post (List.cons.inj hsplit).2
      simp at hlast
  | d :: e :: pre, hsplit =>
      rw [List.getLast?_cons_cons]
      exact h (e :: pre) post (List.cons.inj hsplit).2

theorem QuotesEscaped.pair {cs : List UInt8} (h : QuotesEscaped cs) :
    QuotesEscaped (92 :: 34 :: cs) := by
  intro pre post hsplit
  match pre, hsplit with
  | [], hsplit => simp at hsplit
  | [d], hsplit =>
      rw [← (List.cons.inj hsplit).1]
      rfl
  | [d, e], hsplit =>
      have hlast := h [] post (List.cons.inj (List.cons.inj hsplit).2).2
      simp at hlast
  | d :: e :: f :: pre, hsplit =>
      rw [List.getLast?_cons_cons, List.getLast?_cons_cons]
      exact h (f :: pre) post (List.cons.inj (List.cons.inj hsplit).2).2

/-- After a backslash a quote may follow. -/
theorem QuotesEscaped.append {body inner : List UInt8} (h : QuotesEscaped body)
    (hlast : body.getLast? = some 92) (hinner : 34 ∉ inner) :
    QuotesEscaped (body ++ 34 :: inner) := by
  intro pre post hsplit
  rcases List.append_eq_append_iff.mp hsplit with ⟨a, rfl, ha⟩ | ⟨a, rfl, ha⟩
  · cases a with
    | nil => rwa [List.append_nil]
    | cons x a =>
        rw [(List.cons.inj ha).2] at hinner
        exact absurd (by simp) hinner
  · cases a with
    | nil => rwa [List.append_nil] at hlast
    | cons x a =>
        rw [← (List.cons.inj ha).1] at h
        exact h pre a rfl

theorem QuotesEscaped.head {c : UInt8} {cs : List UInt8} (h : QuotesEscaped (c :: cs)) :
    c ≠ 34 := by
  rintro rfl
  have hlast := h [] cs rfl
  simp at hlast

theorem QuotesEscaped.tail {c : UInt8} {cs : List UInt8} (h : QuotesEscaped (c :: cs))
    (hhead : c = 92 → cs.head? ≠ some 34) : QuotesEscaped cs := by
  intro pre post hsplit
  have hlast := h (c :: pre) post (by rw [hsplit]; rfl)
  cases pre with
  | nil =>
      rw [List.getLast?_singleton, Option.some.injEq] at hlast
      rw [hsplit] at hhead
      exact absurd rfl (hhead hlast)
  | cons d pre => rwa [List.getLast?_cons_cons] at hlast

theorem QuotesEscaped.of_pair {cs : List UInt8} (h : QuotesEscaped (92 :: 34 :: cs)) :
    QuotesEscaped cs := by
  intro pre post hsplit
  have hlast := h (92 :: 34 :: pre) post (by rw [hsplit]; rfl)
  rw [List.getLast?_cons_cons] at hlast
  cases pre with
  | nil => simp at hlast
  | cons d pre => rwa [List.getLast?_cons_cons] at hlast

/-- A body is empty, or begins with an escaped quote, or with another character. -/
theorem mem_bodyExpr_cases (h : x ∈ bodyExpr.matches') :
    x = [] ∨ (∃ cs, x = 92 :: 34 :: cs ∧ cs ∈ bodyExpr.matches') ∨
      ∃ c cs, x = c :: cs ∧ c ≠ 34 ∧ cs ∈ bodyExpr.matches' := by
  rcases mem_star_cases h with rfl | ⟨u, v, rfl, hu, hv⟩
  · exact .inl rfl
  · rcases mem_add_matches.mp hu with hu | hu
    · obtain ⟨c, hc, rfl⟩ := mem_charset.mp hu
      exact .inr (.inr ⟨c, v, rfl, by simpa using hc, hv⟩)
    · obtain ⟨a, ha, b, hb, rfl⟩ := mem_mul_matches.mp hu
      rw [mem_char_matches.mp ha, mem_char_matches.mp hb]
      exact .inr (.inl ⟨v, rfl, hv⟩)

theorem quotesEscaped_of_mem : ∀ (n : Nat) (x : List UInt8), x.length ≤ n →
    x ∈ bodyExpr.matches' → QuotesEscaped x := by
  intro n
  induction n with
  | zero =>
      intro x hlen _
      rw [List.length_eq_zero_iff.mp (Nat.le_zero.mp hlen)]
      exact .nil
  | succ n ih =>
      intro x hlen hx
      rcases mem_bodyExpr_cases hx with rfl | ⟨cs, rfl, hcs⟩ | ⟨c, cs, rfl, hc, hcs⟩
      · exact .nil
      · exact .pair (ih cs (by simp at hlen; omega) hcs)
      · exact .cons hc (ih cs (by simp at hlen; omega) hcs)

theorem mem_bodyExpr_of_quotesEscaped : ∀ (n : Nat) (x : List UInt8), x.length ≤ n →
    QuotesEscaped x → x ∈ bodyExpr.matches' := by
  intro n
  induction n with
  | zero =>
      intro x hlen _
      rw [List.length_eq_zero_iff.mp (Nat.le_zero.mp hlen)]
      exact nil_mem_star
  | succ n ih =>
      intro x hlen hx
      cases x with
      | nil => exact nil_mem_star
      | cons c cs =>
          by_cases hpair : c = 92 ∧ cs.head? = some 34
          · obtain ⟨rfl, hhead⟩ := hpair
            obtain ⟨v, rfl⟩ := List.head?_eq_some_iff.mp hhead
            have hunit : [92, 34] ∈ (charset (fun c => c ≠ 34) + char 92 * char 34).matches' :=
              mem_add_matches.mpr (.inr (mem_mul_matches.mpr ⟨[92], rfl, [34], rfl, rfl⟩))
            exact append_mem_star hunit (ih v (by simp at hlen; omega) hx.of_pair)
          · have hcs : QuotesEscaped cs := hx.tail fun heq hhead => hpair ⟨heq, hhead⟩
            have hunit : [c] ∈ (charset (fun c => c ≠ 34) + char 92 * char 34).matches' :=
              mem_add_matches.mpr (.inl (mem_charset.mpr ⟨c, by simpa using hx.head, rfl⟩))
            exact append_mem_star hunit (ih cs (by simp at hlen; omega) hcs)

/-- The expression says where quotes may stand. -/
theorem mem_bodyExpr : x ∈ bodyExpr.matches' ↔ QuotesEscaped x :=
  ⟨quotesEscaped_of_mem _ x (le_refl _), mem_bodyExpr_of_quotesEscaped _ x (le_refl _)⟩

theorem mem_stringExpr : x ∈ (char 34 * (bodyExpr * char 34)).matches' ↔
    ∃ body, x = 34 :: (body ++ [34]) ∧ QuotesEscaped body := by
  rw [mem_mul_matches]
  constructor
  · rintro ⟨u, hu, v, hv, rfl⟩
    obtain ⟨body, hbody, w, hw, rfl⟩ := mem_mul_matches.mp hv
    rw [mem_char_matches.mp hu, mem_char_matches.mp hw]
    exact ⟨body, rfl, mem_bodyExpr.mp hbody⟩
  · rintro ⟨body, rfl, hbody⟩
    exact ⟨[34], rfl, _, mem_mul_matches.mpr ⟨body, mem_bodyExpr.mpr hbody, [34], rfl, rfl⟩, rfl⟩

end Words

/-! ## What a token can be -/

/-- The words that rules match. -/
inductive Shape : List UInt8 → Prop
  | word {c : UInt8} {cs : List UInt8} (hc : isLetter c = true)
      (hcs : ∀ d ∈ cs, isWordChar d = true) : Shape (c :: cs)
  | punctuation {p : Token × String} (hp : p ∈ punctuation) : Shape (ascii p.2)
  | digits {c : UInt8} {cs : List UInt8} (hc : isDigit c = true)
      (hcs : ∀ d ∈ cs, isDigit d = true) : Shape (c :: cs)
  | negative {ds : List UInt8} (hds : ∀ d ∈ ds, isDigit d = true) : Shape (45 :: ds)
  | string {body : List UInt8} (hbody : QuotesEscaped body) : Shape (34 :: (body ++ [34]))
  | spaces {c : UInt8} {cs : List UInt8} (hc : isSpace c = true)
      (hcs : ∀ d ∈ cs, isSpace d = true) : Shape (c :: cs)
  | comment (rest : List UInt8) : Shape (47 :: 42 :: rest)
  | lineComment (rest : List UInt8) : Shape (45 :: 45 :: rest)
  | hash (rest : List UInt8) : Shape (35 :: rest)
  | unrecognized (c : UInt8) : Shape [c]

theorem keyword_upper : ∀ k ∈ keywords, ascii k.2 ≠ [] ∧ ∀ c ∈ ascii k.2, 65 ≤ c ∧ c ≤ 90 := by
  have hall : keywords.all (fun k => !(ascii k.2).isEmpty &&
      (ascii k.2).all fun c => decide (65 ≤ c ∧ c ≤ 90)) = true := rfl
  intro k hk
  have hkeyword := List.all_eq_true.mp hall k hk
  rw [Bool.and_eq_true, List.all_eq_true] at hkeyword
  exact ⟨by simpa using hkeyword.1, fun c hc => of_decide_eq_true (hkeyword.2 c hc)⟩

theorem isLetter_of_toUpper {c : UInt8} (h : 65 ≤ toUpper c ∧ toUpper c ≤ 90) :
    isLetter c = true := by
  unfold toUpper at h
  rw [isLetter, decide_eq_true_eq]
  split at h
  · rename_i hrange
    exact .inr hrange
  · exact .inl h

section Shapes

variable {r : Rule UInt8 Token} {w input : List UInt8} {n : Nat} {c : UInt8} {cs : List UInt8}

theorem shape_lineExpr {u v : List UInt8} (h : u ∈ lineExpr.matches') : Shape (u ++ v) := by
  obtain ⟨a, ha, b, hb, rfl⟩ := mem_mul_matches.mp h
  rcases mem_add_matches.mp ha with ha | ha
  · obtain ⟨d, hd, e, he, rfl⟩ := mem_mul_matches.mp ha
    rw [mem_exactly.mp hd]
    exact .lineComment _
  · rw [mem_char_matches.mp ha]
    exact .hash _

/-- What a rule matches has a shape. -/
theorem shape_of_mem (hr : r ∈ rules) (h : w ∈ r.expr.matches' ∨ w ∈ r.atEnd.matches') :
    Shape w := by
  have hnone : ∀ {w : List UInt8}, w ∈ (0 : RegularExpression UInt8).matches' → Shape w :=
    fun h => absurd h notMem_zero_matches
  rcases List.mem_append.mp hr with hr | hr
  · obtain ⟨k, hk, rfl⟩ := List.mem_map.mp hr
    rcases h with h | h
    · obtain ⟨hne, hupper⟩ := keyword_upper k hk
      have heq := (mem_keywordExpr hupper).mp h
      rw [heq] at hupper hne
      cases w with
      | nil => exact absurd rfl hne
      | cons c cs =>
          have hall : ∀ d ∈ c :: cs, isLetter d = true := fun d hd =>
            isLetter_of_toUpper (hupper _ (List.mem_map_of_mem hd))
          exact .word (hall c List.mem_cons_self) fun d hd =>
            isWordChar_of_isLetter (hall d (List.mem_cons_of_mem c hd))
    · exact hnone h
  rcases List.mem_append.mp hr with hr | hr
  · obtain ⟨p, hp, rfl⟩ := List.mem_map.mp hr
    rcases h with h | h
    · rw [mem_exactly.mp h]
      exact .punctuation hp
    · exact hnone h
  simp only [otherRules, List.mem_cons, List.not_mem_nil, or_false] at hr
  rcases hr with rfl | rfl | rfl | rfl | rfl | rfl | rfl
  · rcases h with h | h
    · obtain ⟨ds, hne, hds, rfl | rfl⟩ := mem_integerExpr.mp h
      · obtain ⟨c, cs, rfl⟩ := List.exists_cons_of_ne_nil hne
        obtain ⟨hc, hcs⟩ := List.forall_mem_cons.mp hds
        exact .digits hc hcs
      · exact .negative hds
    · exact hnone h
  · rcases h with h | h
    · obtain ⟨body, rfl, hbody⟩ := mem_stringExpr.mp h
      exact .string hbody
    · exact hnone h
  · rcases h with h | h
    · obtain ⟨c, cs, rfl, hc, hcs⟩ := mem_identifierExpr.mp h
      exact .word hc hcs
    · exact hnone h
  · rcases h with h | h
    · obtain ⟨c, cs, rfl, hc, hcs⟩ := mem_spaceExpr.mp h
      exact .spaces hc hcs
    · exact hnone h
  · rcases h with h | h
    · obtain ⟨u, hu, v, hv, rfl⟩ := mem_mul_matches.mp h
      rw [mem_exactly.mp hu]
      exact .comment v
    · exact hnone h
  · rcases h with h | h
    · rcases mem_add_matches.mp h with h | h
      · obtain ⟨u, hu, v, hv, rfl⟩ := mem_mul_matches.mp h
        exact shape_lineExpr hu
      · obtain ⟨u, hu, v, hv, rfl⟩ := mem_mul_matches.mp h
        rw [mem_exactly.mp hu]
        exact .lineComment v
    · rcases mem_add_matches.mp h with h | h
      · have hshape : Shape (w ++ []) := shape_lineExpr h
        rwa [List.append_nil] at hshape
      · rw [mem_exactly.mp h]
        exact .lineComment []
  · rcases h with h | h
    · obtain ⟨c, _, rfl⟩ := mem_charset.mp h
      exact .unrecognized c
    · exact hnone h

theorem shape_of_accepts (hr : r ∈ rules) (h : r.accepts input n = true) :
    Shape (input.take n) := shape_of_mem hr (Rule.mem_of_accepts h)

theorem shape_of_lexes {tokens : List (Token × List UInt8)} (h : Lexes rules input tokens) :
    ∀ t ∈ tokens, Shape t.2 := by
  induction h with
  | nil => simp
  | cons _ hmunch _ ih =>
      refine List.forall_mem_cons.mpr ⟨?_, ih⟩
      obtain ⟨_, _, hfirst, _⟩ := munch_eq_some.mp hmunch
      obtain ⟨r, hr, _, hacc⟩ := exists_of_firstAt hfirst
      have hshape := shape_of_accepts hr hacc
      rwa [List.take_left] at hshape

end Shapes

/-! ## First characters -/

/-- How a fixed text begins, and when it is one character. -/
def startsFixed : List UInt8 → Bool
  | [] => false
  | c :: cs => !isLetter c && !isDigit c && !isSpace c && decide (c ≠ 34) &&
      (cs.isEmpty || decide (c ∈ ascii "=!><"))

theorem punctuation_starts : ∀ p ∈ punctuation, startsFixed (ascii p.2) = true := by
  decide

/-- How a token that begins with `c` may go on. -/
def GoesOn (c : UInt8) (cs : List UInt8) : Prop :=
  if isLetter c then ∀ d ∈ cs, isWordChar d = true
  else if isDigit c then ∀ d ∈ cs, isDigit d = true
  else if isSpace c then ∀ d ∈ cs, isSpace d = true
  else if c = 45 then (∀ d ∈ cs, isDigit d = true) ∨ cs.head? = some 45
  else if c = 34 then (∃ body, cs = body ++ [34] ∧ QuotesEscaped body) ∨ cs = []
  else if c = 47 then cs.head? = some 42 ∨ cs = []
  else c = 35 ∨ c ∈ ascii "=!><" ∨ cs = []

/-- What begins no word, integer, blank, string or comment of two dashes or a slash. -/
def isSymbol (c : UInt8) : Bool :=
  !isLetter c && !isDigit c && !isSpace c && decide (c ≠ 45 ∧ c ≠ 34 ∧ c ≠ 47)

theorem goesOn_symbol {c : UInt8} {cs : List UInt8} (h : isSymbol c = true) :
    GoesOn c cs ↔ c = 35 ∨ c ∈ ascii "=!><" ∨ cs = [] := by
  simp only [isSymbol, Bool.and_eq_true, Bool.not_eq_true', decide_eq_true_eq] at h
  obtain ⟨⟨⟨hletter, hdigit⟩, hspace⟩, h45, h34, h47⟩ := h
  simp [GoesOn, hletter, hdigit, hspace, h45, h34, h47]

theorem goesOn_nil (c : UInt8) : GoesOn c [] := by
  unfold GoesOn
  split_ifs <;> simp

theorem isLetter_eq_false_of_isDigit {c : UInt8} (h : isDigit c = true) : isLetter c = false := by
  by_contra hletter
  rw [isDigit_eq_false_of_isLetter (by simpa using hletter)] at h
  cases h

section Heads

variable {c : UInt8} {cs : List UInt8}

/-- The first character bounds the word. -/
theorem Shape.goesOn (h : Shape (c :: cs)) : GoesOn c cs := by
  generalize hw : c :: cs = w at h
  cases h with
  | word hc hcs =>
      cases hw
      rwa [GoesOn, if_pos hc]
  | punctuation hp =>
      have hstarts := punctuation_starts _ hp
      rw [← hw, startsFixed] at hstarts
      simp only [Bool.and_eq_true, Bool.or_eq_true, decide_eq_true_eq, List.isEmpty_iff] at hstarts
      rcases hstarts.2 with rfl | htwo
      · exact goesOn_nil c
      · have hall : (ascii "=!><").all isSymbol = true := rfl
        exact (goesOn_symbol (List.all_eq_true.mp hall c htwo)).mpr (.inr (.inl htwo))
  | digits hc hcs =>
      cases hw
      rwa [GoesOn, if_neg (by simp [isLetter_eq_false_of_isDigit hc]), if_pos hc]
  | negative hds =>
      cases hw
      exact .inl hds
  | string hbody =>
      cases hw
      exact .inl ⟨_, rfl, hbody⟩
  | spaces hc hcs =>
      cases hw
      rcases isSpace_cases hc with rfl | rfl | rfl | rfl <;> exact hcs
  | comment rest =>
      cases hw
      exact .inl rfl
  | lineComment rest =>
      cases hw
      exact .inr rfl
  | hash rest =>
      cases hw
      exact .inl rfl
  | unrecognized d =>
      cases hw
      exact goesOn_nil c

theorem Shape.of_letter (h : Shape (c :: cs)) (hc : isLetter c = true) :
    ∀ d ∈ cs, isWordChar d = true := by
  have hgoes := h.goesOn
  rwa [GoesOn, if_pos hc] at hgoes

theorem Shape.of_digit (h : Shape (c :: cs)) (hc : isDigit c = true) :
    ∀ d ∈ cs, isDigit d = true := by
  have hgoes := h.goesOn
  rwa [GoesOn, if_neg (by simp [isLetter_eq_false_of_isDigit hc]), if_pos hc] at hgoes

theorem Shape.of_blank (h : Shape (32 :: cs)) : ∀ d ∈ cs, isSpace d = true := h.goesOn

theorem Shape.of_minus (h : Shape (45 :: cs)) :
    (∀ d ∈ cs, isDigit d = true) ∨ cs.head? = some 45 := h.goesOn

theorem Shape.of_slash (h : Shape (47 :: cs)) : cs.head? = some 42 ∨ cs = [] := h.goesOn

theorem Shape.of_quote (h : Shape (34 :: cs)) :
    (∃ body, cs = body ++ [34] ∧ QuotesEscaped body) ∨ cs = [] := h.goesOn

/-- The characters no longer token begins with. -/
theorem Shape.of_single (hc : c ∈ ascii "*%+.(),;") (h : Shape (c :: cs)) : cs = [] := by
  have hall : (ascii "*%+.(),;").all (fun d => isSymbol d && decide (d ≠ 35) &&
      !(ascii "=!><").contains d) = true := rfl
  have hchar := List.all_eq_true.mp hall c hc
  simp only [Bool.and_eq_true, decide_eq_true_eq, Bool.not_eq_true', List.contains_eq_mem,
    decide_eq_false_iff_not] at hchar
  obtain ⟨⟨hsymbol, h35⟩, htwo⟩ := hchar
  rcases (goesOn_symbol hsymbol).mp h.goesOn with heq | hmem | hnil
  · exact absurd heq h35
  · exact absurd hmem htwo
  · exact hnil

end Heads

/-! ## The first rule that matches -/

section First

variable {w : List UInt8} (rest : List UInt8)

/-- The keyword a word is, whatever the case of its letters. -/
def keywordOf (w : List UInt8) : Option Token :=
  (keywords.find? fun k => ascii k.2 = w.map toUpper).map Prod.fst

/-- The fixed text a word is. -/
def punctuationOf (w : List UInt8) : Option Token :=
  (punctuation.find? fun p => ascii p.2 = w).map Prod.fst

/-- The token of an identifier or keyword. -/
def wordToken (w : List UInt8) : Token := (keywordOf w).getD .IDENTIFIER

theorem find?_map_rules {table : List (Token × String)} {e : String → RegularExpression UInt8}
    {test : Token × String → Bool} {n : Nat} {input : List UInt8}
    (h : ∀ k ∈ table, Rule.accepts { token := k.1, expr := e k.2 } input n = test k) :
    ((table.map fun k => ({ token := k.1, expr := e k.2 } : Rule UInt8 Token)).find?
      fun r => r.accepts input n).map Rule.token = (table.find? test).map Prod.fst := by
  induction table with
  | nil => rfl
  | cons k table ih =>
      obtain ⟨hk, htable⟩ := List.forall_mem_cons.mp h
      rw [List.map_cons, List.find?_cons, List.find?_cons, hk]
      cases test k with
      | true => rfl
      | false => exact ih htable

/-- Keywords, then fixed texts, then the other rules. -/
theorem firstAt_rules (w : List UInt8) : firstAt rules (w ++ rest) w.length =
    (keywordOf w).or ((punctuationOf w).or (firstAt otherRules (w ++ rest) w.length)) := by
  have hkeywords : ∀ k ∈ keywords,
      Rule.accepts { token := k.1, expr := keywordExpr k.2 } (w ++ rest) w.length =
        decide (ascii k.2 = w.map toUpper) := by
    intro k hk
    rw [Bool.eq_iff_iff, Rule.accepts_append rfl rfl, decide_eq_true_eq]
    exact mem_keywordExpr (keyword_upper k hk).2
  have hpunctuation : ∀ p ∈ punctuation,
      Rule.accepts { token := p.1, expr := exactly (ascii p.2) } (w ++ rest) w.length =
        decide (ascii p.2 = w) := by
    intro p _
    rw [Bool.eq_iff_iff, Rule.accepts_append rfl rfl, decide_eq_true_eq, mem_exactly]
    exact eq_comm
  rw [firstAt, rules, List.find?_append, List.find?_append, Option.map_or, Option.map_or]
  rw [find?_map_rules hkeywords, find?_map_rules (e := fun s => exactly (ascii s)) hpunctuation]
  rfl

theorem keywordOf_eq_none {c : UInt8} {cs : List UInt8} (hc : isLetter c = false) :
    keywordOf (c :: cs) = none := by
  rw [keywordOf, Option.map_eq_none_iff, List.find?_eq_none]
  intro k hk heq
  rw [decide_eq_true_eq] at heq
  have hupper := (keyword_upper k hk).2
  rw [heq] at hupper
  have hletter := isLetter_of_toUpper (hupper _ (List.mem_map_of_mem List.mem_cons_self))
  rw [hc] at hletter
  cases hletter

theorem punctuationOf_eq_none (h : startsFixed w = false) : punctuationOf w = none := by
  rw [punctuationOf, Option.map_eq_none_iff, List.find?_eq_none]
  intro p hp heq
  rw [decide_eq_true_eq] at heq
  have hstarts := punctuation_starts p hp
  rw [heq, h] at hstarts
  cases hstarts

theorem firstAt_word {c : UInt8} {cs : List UInt8} (hc : isLetter c = true)
    (hcs : ∀ d ∈ cs, isWordChar d = true) :
    firstAt rules ((c :: cs) ++ rest) (c :: cs).length = some (wordToken (c :: cs)) := by
  have hother : firstAt otherRules ((c :: cs) ++ rest) (c :: cs).length = some .IDENTIFIER := by
    have hinteger : ¬ (c :: cs) ∈ integerExpr.matches' := by
      rintro hmem
      obtain ⟨ds, hne, hds, heq | heq⟩ := mem_integerExpr.mp hmem
      · have hdigit := hds c (by rw [← heq]; exact List.mem_cons_self)
        rw [isDigit_eq_false_of_isLetter hc] at hdigit
        cases hdigit
      · rw [(List.cons.inj heq).1] at hc
        cases hc
    have hstring : ¬ (c :: cs) ∈ (char 34 * (bodyExpr * char 34)).matches' := by
      intro hmem
      obtain ⟨body, heq, _⟩ := mem_stringExpr.mp hmem
      rw [(List.cons.inj heq).1] at hc
      cases hc
    have hidentifier := mem_identifierExpr.mpr ⟨c, cs, rfl, hc, hcs⟩
    rw [otherRules, firstAt_cons_of_notMem rfl rfl hinteger, firstAt_cons_of_notMem rfl rfl hstring,
      firstAt_cons_of_mem rfl rfl hidentifier]
  have hfixed : punctuationOf (c :: cs) = none := punctuationOf_eq_none (by simp [startsFixed, hc])
  rw [firstAt_rules rest, hfixed, hother, wordToken]
  cases keywordOf (c :: cs) <;> rfl

theorem firstAt_integer {c : UInt8} {cs : List UInt8} (hc : isLetter c = false)
    (hfixed : startsFixed (c :: cs) = false) (hmem : (c :: cs) ∈ integerExpr.matches') :
    firstAt rules ((c :: cs) ++ rest) (c :: cs).length = some .INTEGER := by
  have hother : firstAt otherRules ((c :: cs) ++ rest) (c :: cs).length = some .INTEGER := by
    rw [otherRules, firstAt_cons_of_mem rfl rfl hmem]
  rw [firstAt_rules rest, keywordOf_eq_none hc, punctuationOf_eq_none hfixed, hother]
  rfl

theorem firstAt_punctuation {p : Token × String} (hp : p ∈ punctuation) :
    firstAt rules (ascii p.2 ++ rest) (ascii p.2).length = some p.1 := by
  have hall : ∀ p ∈ punctuation, keywordOf (ascii p.2) = none ∧
      punctuationOf (ascii p.2) = some p.1 := by decide
  obtain ⟨hkeyword, hfixed⟩ := hall p hp
  rw [firstAt_rules rest, hkeyword, hfixed]
  rfl

theorem firstAt_string {body : List UInt8} (hbody : QuotesEscaped body) :
    firstAt rules ((34 :: (body ++ [34])) ++ rest) (34 :: (body ++ [34])).length =
      some .STRING := by
  have hother : firstAt otherRules ((34 :: (body ++ [34])) ++ rest)
      (34 :: (body ++ [34])).length = some .STRING := by
    have hinteger : ¬ (34 :: (body ++ [34])) ∈ integerExpr.matches' := by
      intro hmem
      obtain ⟨ds, hne, hds, heq | heq⟩ := mem_integerExpr.mp hmem
      · have hdigit := hds 34 (by rw [← heq]; exact List.mem_cons_self)
        cases hdigit
      · cases (List.cons.inj heq).1
    rw [otherRules, firstAt_cons_of_notMem rfl rfl hinteger,
      firstAt_cons_of_mem rfl rfl (mem_stringExpr.mpr ⟨body, rfl, hbody⟩)]
  have hfixed : startsFixed (34 :: (body ++ [34])) = false := by
    simp [startsFixed]
  rw [firstAt_rules rest, keywordOf_eq_none (by decide), punctuationOf_eq_none hfixed, hother]
  rfl

theorem firstAt_blank : firstAt rules ([32] ++ rest) 1 = some .WHITE_SPACE := by
  have hother : firstAt otherRules ([32] ++ rest) ([32] : List UInt8).length =
      some .WHITE_SPACE := by
    have hinteger : ¬ [32] ∈ integerExpr.matches' := by
      intro hmem
      obtain ⟨ds, hne, hds, heq | heq⟩ := mem_integerExpr.mp hmem
      · have hdigit := hds 32 (by rw [← heq]; exact List.mem_cons_self)
        cases hdigit
      · cases (List.cons.inj heq).1
    have hstring : ¬ [32] ∈ (char 34 * (bodyExpr * char 34)).matches' := by
      intro hmem
      obtain ⟨body, heq, _⟩ := mem_stringExpr.mp hmem
      cases (List.cons.inj heq).1
    have hidentifier : ¬ [32] ∈ identifierExpr.matches' := by
      intro hmem
      obtain ⟨c, cs, heq, hc, _⟩ := mem_identifierExpr.mp hmem
      rw [← (List.cons.inj heq).1] at hc
      cases hc
    rw [otherRules, firstAt_cons_of_notMem rfl rfl hinteger, firstAt_cons_of_notMem rfl rfl hstring,
      firstAt_cons_of_notMem rfl rfl hidentifier,
      firstAt_cons_of_mem rfl rfl (mem_spaceExpr.mpr ⟨32, [], rfl, rfl, by simp⟩)]
  have hrules := firstAt_rules rest [32]
  rw [keywordOf_eq_none (by decide), punctuationOf_eq_none (by decide), hother] at hrules
  exact hrules

end First

/-! ## The token at the start -/

section Munch

variable {w rest : List UInt8} {c : UInt8} {cs : List UInt8} {token : Token}

/-- A word is taken when no longer one has a shape. -/
theorem munch_of_shape (hw : w ≠ []) (hfirst : firstAt rules (w ++ rest) w.length = some token)
    (hlonger : ∀ d more, d :: more <+: rest → ¬ Shape (w ++ d :: more)) :
    munch rules (w ++ rest) = some (token, w.length) := by
  refine munch_append hw hfirst fun r hr m hacc hm => ?_
  by_contra hlong
  have hshape := shape_of_accepts hr hacc
  rw [List.take_append, List.take_of_length_le (by omega)] at hshape
  have hpre : rest.take (m - w.length) <+: rest := List.take_prefix _ _
  cases htake : rest.take (m - w.length) with
  | nil =>
      have hlen := congrArg List.length htake
      rw [List.length_take, List.length_nil] at hlen
      rw [List.length_append] at hm
      omega
  | cons d more =>
      rw [htake] at hshape hpre
      exact hlonger d more hpre hshape

/-- The first character of a prefix is that of the text. -/
theorem head?_of_prefix_cons {d : UInt8} {more : List UInt8} (h : d :: more <+: rest) :
    rest.head? = some d := by
  obtain ⟨post, rfl⟩ := h
  rfl

theorem munch_word (hc : isLetter c = true) (hcs : ∀ d ∈ cs, isWordChar d = true)
    (hrest : ∀ d, rest.head? = some d → isWordChar d = false) :
    munch rules ((c :: cs) ++ rest) = some (wordToken (c :: cs), (c :: cs).length) := by
  refine munch_of_shape (by simp) (firstAt_word rest hc hcs) fun d more hpre hshape => ?_
  have hword := Shape.of_letter hshape hc d (by simp)
  rw [hrest d (head?_of_prefix_cons hpre)] at hword
  cases hword

theorem munch_digits (hc : isDigit c = true) (hcs : ∀ d ∈ cs, isDigit d = true)
    (hrest : ∀ d, rest.head? = some d → isDigit d = false) :
    munch rules ((c :: cs) ++ rest) = some (.INTEGER, (c :: cs).length) := by
  have hmem : c :: cs ∈ integerExpr.matches' :=
    mem_integerExpr.mpr ⟨c :: cs, by simp, List.forall_mem_cons.mpr ⟨hc, hcs⟩, .inl rfl⟩
  have hfirst := firstAt_integer rest (isLetter_eq_false_of_isDigit hc)
    (by simp [startsFixed, hc]) hmem
  refine munch_of_shape (by simp) hfirst fun d more hpre hshape => ?_
  have hdigit := Shape.of_digit hshape hc d (by simp)
  rw [hrest d (head?_of_prefix_cons hpre)] at hdigit
  cases hdigit

/-- A minus sign before a digit is part of an integer. -/
theorem munch_minus_digit (hc : isDigit c = true) :
    munch rules (45 :: c :: rest) ≠ some (token, 1) := by
  intro hmunch
  have hmem : [45, c] ∈ integerExpr.matches' :=
    mem_integerExpr.mpr ⟨[c], by simp, by simpa using hc, .inr rfl⟩
  have hfixed : startsFixed [45, c] = false := by
    have htwo : (45 : UInt8) ∉ ascii "=!><" := by decide
    simp [startsFixed, htwo]
  have hfirst := firstAt_integer rest (by decide) hfixed hmem
  obtain ⟨_, _, _, hnone⟩ := munch_eq_some.mp hmunch
  have hnone := hnone 2 (by omega) (by simp)
  rw [List.cons_append, List.singleton_append] at hfirst
  rw [List.length_cons, List.length_singleton, hnone] at hfirst
  cases hfirst

/-- A minus sign stands alone before what is no digit and no minus sign. -/
theorem munch_minus (hrest : ∀ d, rest.head? = some d → isDigit d = false ∧ d ≠ 45) :
    munch rules ([45] ++ rest) = some (.MINUS, 1) := by
  have hfirst := firstAt_punctuation rest (p := (.MINUS, "-")) (by decide)
  refine munch_of_shape (by simp) hfirst fun d more hpre hshape => ?_
  obtain ⟨hdigit, hminus⟩ := hrest d (head?_of_prefix_cons hpre)
  rcases Shape.of_minus hshape with hall | hhead
  · rw [hall d (by simp)] at hdigit
    cases hdigit
  · exact hminus (Option.some.inj hhead)

theorem munch_slash (hrest : rest.head? ≠ some 42) :
    munch rules ([47] ++ rest) = some (.SLASH, 1) := by
  have hfirst := firstAt_punctuation rest (p := (.SLASH, "/")) (by decide)
  refine munch_of_shape (by simp) hfirst fun d more hpre hshape => ?_
  rcases Shape.of_slash hshape with hhead | hnil
  · rw [head?_of_prefix_cons hpre] at hrest
    exact hrest hhead
  · cases hnil

/-- The fixed texts with which no longer token begins. -/
theorem munch_single {p : Token × String} (hp : p ∈ punctuation) (htext : ascii p.2 = [c])
    (hc : c ∈ ascii "*%+.(),;") : munch rules ([c] ++ rest) = some (p.1, 1) := by
  have hfirst := firstAt_punctuation rest hp
  rw [htext] at hfirst
  refine munch_of_shape (by simp) hfirst fun d more hpre hshape => ?_
  cases Shape.of_single hc hshape

theorem munch_blank (hrest : ∀ d, rest.head? = some d → isSpace d = false) :
    munch rules ([32] ++ rest) = some (.WHITE_SPACE, 1) := by
  refine munch_of_shape (by simp) (firstAt_blank rest) fun d more hpre hshape => ?_
  have hspace := Shape.of_blank hshape d (by simp)
  rw [hrest d (head?_of_prefix_cons hpre)] at hspace
  cases hspace

/-! ### Strings -/

variable {body : List UInt8} {n : Nat}

/-- A literal is what the longest match takes, or the match is a longer literal. -/
theorem munch_quote (hbody : QuotesEscaped body)
    (hmunch : munch rules ((34 :: (body ++ [34])) ++ rest) = some (token, n)) :
    token = .STRING ∧ body.length + 2 ≤ n := by
  obtain ⟨hpos, hle, hfirst, hnone⟩ := munch_eq_some.mp hmunch
  have hlen : body.length + 2 ≤ n := by
    by_contra hshort
    have hstring := firstAt_string rest hbody
    rw [hnone _ (by simp; omega) (by simp)] at hstring
    cases hstring
  refine ⟨?_, hlen⟩
  obtain ⟨r, hr, _, hacc⟩ := exists_of_firstAt hfirst
  have hshape := shape_of_accepts hr hacc
  have hsplit := List.take_append_drop n ((34 :: (body ++ [34])) ++ rest)
  cases n with
  | zero => omega
  | succ n =>
      rw [List.cons_append, List.take_succ_cons] at hshape hsplit
      rcases Shape.of_quote hshape with ⟨body', hbody', hescaped⟩ | hnil
      · rw [hbody'] at hsplit
        have hfirst' := firstAt_string (List.drop (n + 1) (34 :: (body ++ [34] ++ rest))) hescaped
        rw [hsplit] at hfirst'
        have hlength : (34 :: (body' ++ [34])).length = n + 1 := by
          rw [← hbody', List.length_cons, List.length_take]
          simp at hle ⊢
          omega
        rw [hlength] at hfirst'
        exact Option.some.inj (hfirst.symm.trans hfirst')
      · have hlength := congrArg List.length hnil
        simp at hlength
        omega

/-- A literal ends at its closing quote. -/
theorem munch_string (hbody : QuotesEscaped body) (hclosed : body.getLast? = some 92 → 34 ∉ rest) :
    munch rules ((34 :: (body ++ [34])) ++ rest) = some (.STRING, (34 :: (body ++ [34])).length) := by
  refine munch_of_shape (by simp) (firstAt_string rest hbody) fun d more hpre hshape => ?_
  rcases Shape.of_quote hshape with ⟨body', heq, hbody'⟩ | hnil
  · have heq : body ++ [34] ++ (d :: more) = body' ++ [34] := heq
    rcases List.eq_nil_or_concat (d :: more) with hnil | ⟨inner, x, hmore⟩
    · cases hnil
    · rw [List.concat_eq_append] at hmore
      rw [hmore, ← List.append_assoc] at heq
      obtain ⟨hinner, hx⟩ := List.append_inj' heq rfl
      have hescaped := hbody' body inner (by rw [← hinner]; simp)
      have hmem : 34 ∈ d :: more := by
        rw [hmore, hx]
        simp
      exact hclosed hescaped (hpre.subset hmem)
  · simp at hnil

/-- A backslash before the closing quote takes the literal into the next one. -/
theorem munch_string_longer (hbody : QuotesEscaped body) (hlast : body.getLast? = some 92)
    (hrest : 34 ∈ rest) : munch rules ((34 :: (body ++ [34])) ++ rest) ≠
      some (token, (34 :: (body ++ [34])).length) := by
  intro hmunch
  obtain ⟨inner, post, rfl, hinner⟩ := List.eq_append_cons_of_mem hrest
  have hlonger := hbody.append hlast hinner
  have hstring := firstAt_string post hlonger
  obtain ⟨_, _, _, hnone⟩ := munch_eq_some.mp hmunch
  have hnone := hnone (34 :: (body ++ 34 :: inner ++ [34])).length (by simp) (by simp)
  have htext : 34 :: (body ++ 34 :: inner ++ [34]) ++ post =
      (34 :: (body ++ [34])) ++ (inner ++ 34 :: post) := by simp
  rw [htext, hnone] at hstring
  cases hstring

end Munch

end Iic3413Db.Query
