/-
  Query/Parser/SpacedExpressions.lean --- SET expressions with and without spaces around
  their operators.

  The lexer gives back the tokens of the tree when no text goes on into the next.
  With spaces none does.  Without them only a minus sign can: before a digit it is the
  sign of an INTEGER, and the expression is then no expression.
-/
import Iic3413Db.Query.Parser.ExpressionTokens

set_option autoImplicit false

namespace Iic3413Db.Query

open Iic3413Db.Foundation

/-! ## Texts -/

section Render

variable (space : List UInt8)

mutual

/-- The text of the tree, with `space` around the binary operators. -/
def AdditiveExpr.render : AdditiveExpr → List UInt8
  | .chain first rest => first.render ++ rest.render

def AdditiveRest.render : AdditiveRest → List UInt8
  | .nil => []
  | .cons op operand rest => space ++ op.token.2 ++ space ++ operand.render ++ rest.render

def MultiplicativeExpr.render : MultiplicativeExpr → List UInt8
  | .chain first rest => first.render ++ rest.render

def MultiplicativeRest.render : MultiplicativeRest → List UInt8
  | .nil => []
  | .cons op operand rest => space ++ op.token.2 ++ space ++ operand.render ++ rest.render

def UnaryExpr.render : UnaryExpr → List UInt8
  | .empty => []
  | .atomic e => e.render
  | .plus e => 43 :: e.render
  | .minus e => 45 :: e.render

def AtomicExpr.render : AtomicExpr → List UInt8
  | .empty => []
  | .constant ctx => ctx.token.2
  | .parentheses e => 40 :: (e.render ++ [41])
  | .column ctx => ctx.getText

end

end Render

/-- With single spaces around the binary operators. -/
def spaced (e : AdditiveExpr) : List UInt8 := e.render [32]

/-- Without spaces. -/
def unspaced (e : AdditiveExpr) : List UInt8 := e.render []

/-- Both texts have one parse tree, and it is the same. -/
def SameTree (e : AdditiveExpr) : Prop :=
  ∃ t, (∀ t', Parses (spaced e) t' ↔ t' = t) ∧ ∀ t', Parses (unspaced e) t' ↔ t' = t

/-- A minus sign stands before an integer. -/
def MinusBeforeInteger (tokens : List (Token × List UInt8)) : Prop :=
  ∃ pre post digits, tokens = pre ++ (.MINUS, [45]) :: (.INTEGER, digits) :: post

theorem not_minusBeforeInteger_nil : ¬ MinusBeforeInteger [] := by
  rintro ⟨pre, post, digits, heq⟩
  simp at heq

theorem minusBeforeInteger_cons {t : Token × List UInt8} {tokens : List (Token × List UInt8)} :
    MinusBeforeInteger (t :: tokens) ↔ (t = (.MINUS, [45]) ∧
      ∃ digits, tokens.head? = some (.INTEGER, digits)) ∨ MinusBeforeInteger tokens := by
  constructor
  · rintro ⟨pre, post, digits, heq⟩
    cases pre with
    | nil =>
        obtain ⟨rfl, rfl⟩ := List.cons.inj heq
        exact .inl ⟨rfl, digits, rfl⟩
    | cons _ pre => exact .inr ⟨pre, post, digits, (List.cons.inj heq).2⟩
  · rintro (⟨rfl, digits, hhead⟩ | ⟨pre, post, digits, rfl⟩)
    · obtain ⟨post, rfl⟩ := List.head?_eq_some_iff.mp hhead
      exact ⟨[], post, digits, rfl⟩
    · exact ⟨t :: pre, post, digits, rfl⟩

/-! ## Phrases -/

/-- The tokens of the binary operators. -/
def operators : List (Token × List UInt8) :=
  [(.PLUS, [43]), (.MINUS, [45]), (.ASTERISK, [42]), (.SLASH, [47]), (.MODULO, [37])]

/-- Tokens with operators between operands, and their text. -/
inductive Phrase (space : List UInt8) : List (Token × List UInt8) → List UInt8 → Prop
  | integer {c : UInt8} {cs : List UInt8} (hc : isDigit c = true)
      (hcs : ∀ d ∈ cs, isDigit d = true) : Phrase space [(.INTEGER, c :: cs)] (c :: cs)
  | name {w : List UInt8} (hw : IsIdentifier w) : Phrase space [identifierToken w] w
  | qualified {q w : List UInt8} (hq : IsIdentifier q) (hw : IsIdentifier w) :
      Phrase space [identifierToken q, (.DOT, [46]), identifierToken w] (q ++ 46 :: w)
  | parentheses {l : List (Token × List UInt8)} {s : List UInt8} (h : Phrase space l s) :
      Phrase space ((.L_PAR, [40]) :: (l ++ [(.R_PAR, [41])])) (40 :: (s ++ [41]))
  | operation {l l' : List (Token × List UInt8)} {s s' : List UInt8} {op : Token × List UInt8}
      (hop : op ∈ operators) (h : Phrase space l s) (h' : Phrase space l' s') :
      Phrase space (l ++ op :: l') (s ++ (space ++ op.2 ++ space ++ s'))

section Trees

variable {space s : List UInt8} {l : List (Token × List UInt8)}

theorem AdditiveOp.token_mem (op : AdditiveOp) : op.token ∈ operators := by
  cases op <;> decide

theorem MultiplicativeOp.token_mem (op : MultiplicativeOp) : op.token ∈ operators := by
  cases op <;> decide

theorem ColumnContext.phrase {ctx : ColumnContext} (h : ColumnOrConstant.Valid (.column ctx)) :
    Phrase space ctx.tokens ctx.getText := by
  obtain ⟨hname, hqualifier⟩ := h
  unfold tokens getText
  cases hq : ctx.qualifier with
  | none => exact .name hname
  | some q => exact .qualified (hqualifier q hq) hname

mutual

/-- A tree of binary operators is a phrase. -/
theorem AdditiveExpr.phrase (e : AdditiveExpr) (hb : e.Binary)
    (ho : ∀ o ∈ e.operands, o.Valid ∧ o.Unsigned) : Phrase space e.tokens (e.render space) := by
  match e with
  | .chain first rest =>
      obtain ⟨hof, hor⟩ := List.forall_mem_append.mp ho
      exact rest.phrase hb.2 hor (first.phrase hb.1 hof)

theorem AdditiveRest.phrase (rest : AdditiveRest) (hb : rest.Binary)
    (ho : ∀ o ∈ rest.operands, o.Valid ∧ o.Unsigned) {l : List (Token × List UInt8)}
    {s : List UInt8} (h : Phrase space l s) :
    Phrase space (l ++ rest.tokens) (s ++ rest.render space) := by
  match rest with
  | .nil =>
      rw [AdditiveRest.tokens, AdditiveRest.render, List.append_nil, List.append_nil]
      exact h
  | .cons op operand rest =>
      obtain ⟨hoo, hor⟩ := List.forall_mem_append.mp ho
      have hstep := rest.phrase hb.2 hor (.operation op.token_mem h (operand.phrase hb.1 hoo))
      simpa only [AdditiveRest.tokens, AdditiveRest.render, List.append_assoc,
        List.cons_append] using hstep

theorem MultiplicativeExpr.phrase (e : MultiplicativeExpr) (hb : e.Binary)
    (ho : ∀ o ∈ e.operands, o.Valid ∧ o.Unsigned) : Phrase space e.tokens (e.render space) := by
  match e with
  | .chain first rest =>
      obtain ⟨hof, hor⟩ := List.forall_mem_append.mp ho
      exact rest.phrase hb.2 hor (first.phrase hb.1 hof)

theorem MultiplicativeRest.phrase (rest : MultiplicativeRest) (hb : rest.Binary)
    (ho : ∀ o ∈ rest.operands, o.Valid ∧ o.Unsigned) {l : List (Token × List UInt8)}
    {s : List UInt8} (h : Phrase space l s) :
    Phrase space (l ++ rest.tokens) (s ++ rest.render space) := by
  match rest with
  | .nil =>
      rw [MultiplicativeRest.tokens, MultiplicativeRest.render, List.append_nil, List.append_nil]
      exact h
  | .cons op operand rest =>
      obtain ⟨hoo, hor⟩ := List.forall_mem_append.mp ho
      have hstep := rest.phrase hb.2 hor (.operation op.token_mem h (operand.phrase hb.1 hoo))
      simpa only [MultiplicativeRest.tokens, MultiplicativeRest.render, List.append_assoc,
        List.cons_append] using hstep

theorem UnaryExpr.phrase (e : UnaryExpr) (hb : e.Binary)
    (ho : ∀ o ∈ e.operands, o.Valid ∧ o.Unsigned) : Phrase space e.tokens (e.render space) := by
  match e with
  | .atomic a => exact a.phrase hb ho

theorem AtomicExpr.phrase (e : AtomicExpr) (hb : e.Binary)
    (ho : ∀ o ∈ e.operands, o.Valid ∧ o.Unsigned) : Phrase space e.tokens (e.render space) := by
  match e with
  | .constant (.string body) =>
      exact (ho (.constant (.string body)) (by simp [AtomicExpr.operands])).2.elim
  | .constant (.integer n) =>
      obtain ⟨⟨hne, hdigits⟩, hminus⟩ :=
        ho (.constant (.integer n)) (by simp [AtomicExpr.operands])
      obtain ⟨minus, digits⟩ := n
      obtain rfl : minus = false := hminus
      obtain ⟨c, cs, rfl⟩ := List.exists_cons_of_ne_nil hne
      obtain ⟨hc, hcs⟩ := List.forall_mem_cons.mp hdigits
      exact .integer hc hcs
  | .parentheses e => exact .parentheses (e.phrase hb ho)
  | .column ctx => exact ctx.phrase (ho (.column ctx) (by simp [AtomicExpr.operands])).1

end

end Trees

/-! ## Lexing a phrase -/

section Lexing

variable {space s rest : List UInt8} {l more : List (Token × List UInt8)} {op : Token × List UInt8}

/-- An operator stands alone before an operand, but a minus sign does not before a digit. -/
theorem munch_operator (hop : op ∈ operators) (hrest : ∀ d, rest.head? = some d →
    d ≠ 42 ∧ d ≠ 45 ∧ (op.1 = .MINUS → isDigit d = false)) :
    munch rules (op.2 ++ rest) = some (op.1, op.2.length) := by
  simp only [operators, List.mem_cons, List.not_mem_nil, or_false] at hop
  rcases hop with rfl | rfl | rfl | rfl | rfl
  · exact munch_single (p := (.PLUS, "+")) (by decide) rfl (by decide)
  · exact munch_minus fun d hd => ⟨(hrest d hd).2.2 rfl, (hrest d hd).2.1⟩
  · exact munch_single (p := (.ASTERISK, "*")) (by decide) rfl (by decide)
  · exact munch_slash fun hd => (hrest 42 hd).1 rfl
  · exact munch_single (p := (.MODULO, "%")) (by decide) rfl (by decide)

theorem operator_text (hop : op ∈ operators) :
    op.1.visible = true ∧ ∃ c, op.2 = [c] ∧ isWordChar c = false ∧ isSpace c = false := by
  simp only [operators, List.mem_cons, List.not_mem_nil, or_false] at hop
  rcases hop with rfl | rfl | rfl | rfl | rfl <;> exact ⟨rfl, _, rfl, rfl, rfl⟩

theorem operator_minus (hop : op ∈ operators) (h : op.1 = .MINUS) : op = (.MINUS, [45]) := by
  simp only [operators, List.mem_cons, List.not_mem_nil, or_false] at hop
  rcases hop with rfl | rfl | rfl | rfl | rfl <;> first | rfl | cases h

theorem IsIdentifier.ne_nil {w : List UInt8} (h : IsIdentifier w) : w ≠ [] := by
  obtain ⟨c, cs, rfl, _⟩ := h.word
  simp

theorem IsIdentifier.visible {w : List UInt8} (h : IsIdentifier w) :
    (wordToken w).visible = true := by
  rcases h.token with htoken | htoken
  · rw [htoken]
    rfl
  · have hall : ∀ t ∈ keywordRule, t.visible = true := by decide
    exact hall _ htoken

theorem munch_identifier {w : List UInt8} (hw : IsIdentifier w)
    (hrest : ∀ d, rest.head? = some d → isWordChar d = false) :
    munch rules (w ++ rest) = some (wordToken w, w.length) := by
  obtain ⟨c, cs, rfl, hc, hcs⟩ := hw.word
  exact munch_word hc hcs hrest

/-- How an operand begins. -/
def StartsOperand (c : UInt8) : Prop := isLetter c = true ∨ isDigit c = true ∨ c = 40

theorem StartsOperand.ne {c : UInt8} (h : StartsOperand c) :
    c ≠ 42 ∧ c ≠ 45 ∧ isSpace c = false := by
  have hall : [42, 45, 32, 9, 13, 10].all
      (fun d : UInt8 => !isLetter d && !isDigit d && decide (d ≠ 40)) = true := rfl
  have hnot : ∀ d ∈ [42, 45, 32, 9, 13, 10], c ≠ d := by
    rintro d hd rfl
    have hd := List.all_eq_true.mp hall c hd
    rcases h with h | h | h <;> simp [h] at hd
  refine ⟨hnot 42 (by simp), hnot 45 (by simp), ?_⟩
  by_contra hspace
  rcases isSpace_cases (by simpa using hspace) with heq | heq | heq | heq
  · exact hnot 32 (by simp) heq
  · exact hnot 9 (by simp) heq
  · exact hnot 13 (by simp) heq
  · exact hnot 10 (by simp) heq

/-- A phrase begins with an operand, and with a digit only when that is an integer. -/
theorem Phrase.head (h : Phrase space l s) : ∃ c cs, s = c :: cs ∧ StartsOperand c ∧
    (isDigit c = true → ∃ digits post, l = (.INTEGER, digits) :: post) := by
  induction h with
  | integer hc hcs => exact ⟨_, _, rfl, .inr (.inl hc), fun _ => ⟨_, _, rfl⟩⟩
  | name hw =>
      obtain ⟨c, cs, rfl, hc, _⟩ := hw.word
      refine ⟨c, cs, rfl, .inl hc, fun hdigit => ?_⟩
      rw [isDigit_eq_false_of_isLetter hc] at hdigit
      cases hdigit
  | @qualified q w hq hw =>
      obtain ⟨c, cs, rfl, hc, _⟩ := hq.word
      refine ⟨c, cs ++ 46 :: w, rfl, .inl hc, fun hdigit => ?_⟩
      rw [isDigit_eq_false_of_isLetter hc] at hdigit
      cases hdigit
  | parentheses h ih => exact ⟨40, _, rfl, .inr (.inr rfl), fun hdigit => by cases hdigit⟩
  | @operation l l' s s' op hop h h' ih ih' =>
      obtain ⟨c, cs, rfl, hc, hinteger⟩ := ih
      refine ⟨c, _, rfl, hc, fun hdigit => ?_⟩
      obtain ⟨digits, post, rfl⟩ := hinteger hdigit
      exact ⟨digits, _, rfl⟩

/-- An operator between operands, with its spaces. -/
theorem lexes_operator {c : UInt8} (hop : op ∈ operators) (hspace : space = [] ∨ space = [32])
    (hc : StartsOperand c) (hminus : space = [] → op.1 = .MINUS → isDigit c = false)
    (h : Lexes rules (c :: rest) more) :
    ∃ tokens, Lexes rules (space ++ op.2 ++ space ++ c :: rest) tokens ∧
      visible tokens = op :: visible more := by
  obtain ⟨h42, h45, hblank⟩ := hc.ne
  obtain ⟨hvisible, o, ho, _, hospace⟩ := operator_text hop
  rcases hspace with rfl | rfl
  · have hmunch : munch rules (op.2 ++ c :: rest) = some (op.1, op.2.length) := by
      refine munch_operator hop fun d hd => ?_
      rw [← Option.some.inj hd]
      exact ⟨h42, h45, hminus rfl⟩
    rw [List.nil_append, List.append_nil]
    exact ⟨_, .cons (by simp [ho]) hmunch h, visible_cons hvisible⟩
  · have hmunch : munch rules (op.2 ++ 32 :: c :: rest) = some (op.1, op.2.length) := by
      refine munch_operator hop fun d hd => ?_
      rw [← Option.some.inj hd]
      exact ⟨by decide, by decide, fun _ => rfl⟩
    have hafter : munch rules ([32] ++ c :: rest) = some (.WHITE_SPACE, 1) := by
      refine munch_blank fun d hd => ?_
      rwa [← Option.some.inj hd]
    have hblank : munch rules ([32] ++ (op.2 ++ 32 :: c :: rest)) = some (.WHITE_SPACE, 1) := by
      refine munch_blank fun d hd => ?_
      rw [ho] at hd
      rwa [← Option.some.inj hd]
    have hop := Lexes.cons (by simp [ho]) hmunch (.cons (by simp) hafter h)
    refine ⟨(.WHITE_SPACE, [32]) :: op :: (.WHITE_SPACE, [32]) :: more, ?_, ?_⟩
    · simpa using Lexes.cons (by simp) hblank hop
    · have hseen : visible (op :: (.WHITE_SPACE, [32]) :: more) =
          op :: visible ((.WHITE_SPACE, [32]) :: more) := visible_cons hvisible
      exact hseen

/-- The lexer finds the tokens of a phrase, when no minus sign is taken for a sign. -/
theorem Phrase.lexes (h : Phrase space l s) (hspace : space = [] ∨ space = [32])
    (hminus : space = [] → ¬ MinusBeforeInteger l)
    (hrest : ∀ d, rest.head? = some d → isWordChar d = false) (hmore : Lexes rules rest more) :
    ∃ tokens, Lexes rules (s ++ rest) tokens ∧ visible tokens = l ++ visible more := by
  induction h generalizing rest more with
  | @integer c cs hc hcs =>
      have hmunch : munch rules ((c :: cs) ++ rest) = some (.INTEGER, (c :: cs).length) := by
        refine munch_digits hc hcs fun d hd => ?_
        have hword := hrest d hd
        simp only [isWordChar, Bool.or_eq_false_iff] at hword
        exact hword.1.2
      exact ⟨_, .cons (by simp) hmunch hmore, visible_cons rfl⟩
  | @name w hw =>
      exact ⟨_, .cons hw.ne_nil (munch_identifier hw hrest) hmore, visible_cons hw.visible⟩
  | @qualified q w hq hw =>
      have hdot : munch rules ([46] ++ (w ++ rest)) = some (.DOT, 1) :=
        munch_single (p := (.DOT, ".")) (by decide) rfl (by decide)
      have hqualifier : munch rules (q ++ ([46] ++ (w ++ rest))) = some (wordToken q, q.length) := by
        refine munch_identifier hq fun d hd => ?_
        rw [← Option.some.inj hd]
        rfl
      have hname := Lexes.cons hw.ne_nil (munch_identifier hw hrest) hmore
      have hall := Lexes.cons hq.ne_nil hqualifier (.cons (by simp) hdot hname)
      refine ⟨_, by simpa using hall, ?_⟩
      rw [visible_cons hq.visible, visible_cons rfl, visible_cons hw.visible]
      rfl
  | @parentheses l s h ih =>
      have hopen : munch rules ([40] ++ (s ++ ([41] ++ rest))) = some (.L_PAR, 1) :=
        munch_single (p := (.L_PAR, "(")) (by decide) rfl (by decide)
      have hclose : munch rules ([41] ++ rest) = some (.R_PAR, 1) :=
        munch_single (p := (.R_PAR, ")")) (by decide) rfl (by decide)
      have hinner : space = [] → ¬ MinusBeforeInteger l := by
        rintro hnone ⟨pre, post, digits, rfl⟩
        exact hminus hnone ⟨(.L_PAR, [40]) :: pre, post ++ [(.R_PAR, [41])], digits, by simp⟩
      have hafter : ∀ d, ([41] ++ rest).head? = some d → isWordChar d = false := by
        intro d hd
        rw [← Option.some.inj hd]
        rfl
      obtain ⟨tokens, htokens, hvisible⟩ := ih hinner hafter (.cons (by simp) hclose hmore)
      refine ⟨(.L_PAR, [40]) :: tokens, ?_, ?_⟩
      · simpa using Lexes.cons (by simp) hopen htokens
      · rw [visible_cons rfl, hvisible, visible_cons rfl]
        simp
  | @operation l l' s s' op hop h h' ih ih' =>
      obtain ⟨c, cs, rfl, hc, hinteger⟩ := h'.head
      have hright : space = [] → ¬ MinusBeforeInteger l' := by
        rintro hnone ⟨pre, post, digits, rfl⟩
        exact hminus hnone ⟨l ++ op :: pre, post, digits, by simp⟩
      have hleft : space = [] → ¬ MinusBeforeInteger l := by
        rintro hnone ⟨pre, post, digits, rfl⟩
        exact hminus hnone ⟨pre, post ++ op :: l', digits, by simp⟩
      have hdigit : space = [] → op.1 = .MINUS → isDigit c = false := by
        intro hnone hop'
        by_contra hc
        obtain ⟨digits, post, rfl⟩ := hinteger (by simpa using hc)
        exact hminus hnone ⟨l, post, digits, by rw [operator_minus hop hop']⟩
      obtain ⟨tokens', htokens', hvisible'⟩ := ih' hright hrest hmore
      obtain ⟨between, hbetween, hvisible⟩ := lexes_operator hop hspace hc hdigit htokens'
      have hafter : ∀ d, (space ++ op.2 ++ space ++ c :: (cs ++ rest)).head? = some d →
          isWordChar d = false := by
        intro d hd
        obtain ⟨_, o, ho, hword, _⟩ := operator_text hop
        rcases hspace with rfl | rfl
        · rw [ho] at hd
          rwa [← Option.some.inj hd]
        · rw [← Option.some.inj hd]
          rfl
      obtain ⟨tokens, htokens, hall⟩ := ih hleft hafter hbetween
      refine ⟨tokens, ?_, ?_⟩
      · simpa using htokens
      · rw [hall, hvisible, hvisible']
        simp

/-! ## Minus signs -/

/-- Without spaces the text of a phrase is that of its tokens. -/
theorem Phrase.flatten (h : Phrase [] l s) : (l.map Prod.snd).flatten = s := by
  induction h with
  | integer hc hcs => simp
  | name hw => simp [identifierToken]
  | qualified hq hw => simp [identifierToken]
  | parentheses h ih => simp [ih]
  | operation hop h h' ih ih' => simp [ih, ih']

/-- The integers of a phrase begin with a digit. -/
theorem Phrase.digit (h : Phrase space l s) : ∀ digits, (.INTEGER, digits) ∈ l →
    ∃ c cs, digits = c :: cs ∧ isDigit c = true := by
  induction h with
  | @integer c cs hc hcs =>
      intro digits hmem
      rw [(Prod.mk.inj (List.mem_singleton.mp hmem)).2]
      exact ⟨c, cs, rfl, hc⟩
  | name hw =>
      intro digits hmem
      have htoken := (Prod.mk.inj (List.mem_singleton.mp hmem)).1
      exact absurd htoken.symm (hw.ne (by decide))
  | qualified hq hw =>
      intro digits hmem
      simp only [List.mem_cons, List.not_mem_nil, or_false, identifierToken, Prod.mk.injEq] at hmem
      rcases hmem with ⟨htoken, _⟩ | ⟨htoken, _⟩ | ⟨htoken, _⟩
      · exact absurd htoken.symm (hq.ne (by decide))
      · cases htoken
      · exact absurd htoken.symm (hw.ne (by decide))
  | parentheses h ih =>
      intro digits hmem
      simp only [List.mem_cons, List.mem_append, List.not_mem_nil, or_false, Prod.mk.injEq] at hmem
      rcases hmem with ⟨htoken, _⟩ | hmem | ⟨htoken, _⟩
      · cases htoken
      · exact ih digits hmem
      · cases htoken
  | operation hop h h' ih ih' =>
      intro digits hmem
      rcases List.mem_append.mp hmem with hmem | hmem
      · exact ih digits hmem
      · rcases List.mem_cons.mp hmem with hmem | hmem
        · rw [← hmem] at hop
          exact absurd hop (by simp [operators])
        · exact ih' digits hmem

theorem visible_length_le (tokens : List (Token × List UInt8)) :
    ((visible tokens).map Prod.snd).flatten.length ≤ (tokens.map Prod.snd).flatten.length := by
  induction tokens with
  | nil => exact le_refl _
  | cons t tokens ih =>
      cases ht : t.1.visible with
      | true =>
          rw [visible_cons ht]
          simpa using ih
      | false =>
          have hskip : visible (t :: tokens) = visible tokens := by simp [visible, ht]
          rw [hskip, List.map_cons, List.flatten_cons, List.length_append]
          omega

/-- Where no text is hidden no token is. -/
theorem eq_of_visible {tokens : List (Token × List UInt8)} (hne : ∀ t ∈ tokens, t.2 ≠ [])
    (h : ((visible tokens).map Prod.snd).flatten.length = (tokens.map Prod.snd).flatten.length) :
    visible tokens = tokens := by
  induction tokens with
  | nil => rfl
  | cons t tokens ih =>
      obtain ⟨htext, hne⟩ := List.forall_mem_cons.mp hne
      cases ht : t.1.visible with
      | true =>
          rw [visible_cons ht] at h ⊢
          rw [ih hne (by simpa using h)]
      | false =>
          have hskip : visible (t :: tokens) = visible tokens := by simp [visible, ht]
          have hle := visible_length_le tokens
          have hpos := List.length_pos_of_ne_nil htext
          rw [hskip, List.map_cons, List.flatten_cons, List.length_append] at h
          omega

/-- The lexer does not find a minus sign before an integer. -/
theorem Phrase.not_lexes (h : Phrase [] l s) (hminus : MinusBeforeInteger l)
    (hlexes : Lexes rules s more) : visible more ≠ l := by
  intro hvisible
  have hmore : visible more = more := by
    refine eq_of_visible hlexes.ne_nil ?_
    rw [hvisible, h.flatten, hlexes.flatten]
  obtain ⟨pre, post, digits, rfl⟩ := hminus
  obtain ⟨c, cs, rfl, hc⟩ := h.digit digits (by simp)
  rw [← hmore, hvisible] at hlexes
  obtain ⟨rest, hrest⟩ := hlexes.drop
  cases hrest with
  | cons _ hmunch hinteger =>
      cases hinteger with
      | cons _ _ _ => exact munch_minus_digit hc hmunch

end Lexing

/-! ## The same tree -/

section Parsing

variable {e : AdditiveExpr} {text : List UInt8}

theorem parses_iff (h : e.Simple) (htokens : (tokenize rules text).map visible = some e.tokens)
    (t : AdditiveExpr) : Parses text t ↔ t = e := by
  constructor
  · rintro ⟨hvalid, htext⟩
    have heq : e.tokens ++ [] = t.tokens ++ [] := by
      rw [List.append_nil, List.append_nil]
      exact Option.some.inj (htokens.symm.trans htext)
    exact (e.unique h.binary h.operands hvalid (stopsAt_nil _) (stopsAt_nil _) heq).1
  · rintro rfl
    exact ⟨fun o ho => (h.operands o ho).1, htokens⟩

theorem tokens_of_lexes {tokens more : List (Token × List UInt8)} (h : Lexes rules text tokens)
    (hvisible : visible tokens = more) : (tokenize rules text).map visible = some more := by
  rw [tokenize_eq_some.mpr h, Option.map_some, hvisible]

theorem nothing_follows : ∀ d, ([] : List UInt8).head? = some d → isWordChar d = false := by
  simp

/-- With spaces every expression is read as it was. -/
theorem parses_spaced (h : e.Simple) (t : AdditiveExpr) : Parses (spaced e) t ↔ t = e := by
  have hphrase : Phrase [32] e.tokens (spaced e) := e.phrase h.binary h.operands
  obtain ⟨tokens, htokens, hvisible⟩ := hphrase.lexes (.inr rfl) (by simp) nothing_follows .nil
  rw [List.append_nil] at htokens
  exact parses_iff h (tokens_of_lexes htokens (by simpa [visible] using hvisible)) t

theorem parses_unspaced (h : e.Simple) (hminus : ¬ MinusBeforeInteger e.tokens)
    (t : AdditiveExpr) : Parses (unspaced e) t ↔ t = e := by
  have hphrase : Phrase [] e.tokens (unspaced e) := e.phrase h.binary h.operands
  obtain ⟨tokens, htokens, hvisible⟩ :=
    hphrase.lexes (.inl rfl) (fun _ => hminus) nothing_follows .nil
  rw [List.append_nil] at htokens
  exact parses_iff h (tokens_of_lexes htokens (by simpa [visible] using hvisible)) t

/-- A minus sign before an integer is taken away from the expression. -/
theorem not_parses_unspaced (h : e.Simple) (hminus : MinusBeforeInteger e.tokens) :
    ¬ Parses (unspaced e) e := by
  rintro ⟨_, htext⟩
  obtain ⟨tokens, htokens, hvisible⟩ := Option.map_eq_some_iff.mp htext
  exact (e.phrase h.binary h.operands).not_lexes hminus (tokenize_eq_some.mp htokens) hvisible

theorem not_sameTree (h : e.Simple) (hminus : MinusBeforeInteger e.tokens) : ¬ SameTree e := by
  rintro ⟨t, hspaced, hunspaced⟩
  have ht : e = t := (hspaced e).mp ((parses_spaced h e).mpr rfl)
  exact not_parses_unspaced h hminus ((hunspaced e).mpr ht)

/-- Spaces around the operators change nothing, unless a minus sign stands before an
integer. -/
theorem sameTree_iff (e : AdditiveExpr) (h : e.Simple) :
    SameTree e ↔ ¬ MinusBeforeInteger e.tokens := by
  constructor
  · intro hsame hminus
    exact not_sameTree h hminus hsame
  · intro hminus
    exact ⟨e, parses_spaced h, parses_unspaced h hminus⟩

/-- An operand that is the column `c`, and one that is the digit `c`. -/
def columnOperand (c : UInt8) : MultiplicativeExpr := .chain (.atomic (.column ⟨none, [c]⟩)) .nil

def digitOperand (c : UInt8) : MultiplicativeExpr :=
  .chain (.atomic (.constant (.integer ⟨false, [c]⟩))) .nil

theorem isIdentifier_letter {c : UInt8} (hc : isLetter c = true)
    (hword : wordToken [c] = .IDENTIFIER) : IsIdentifier [c] :=
  ⟨⟨c, [], rfl, hc, by simp⟩, .inl hword⟩

theorem columnOperand_valid {c : UInt8} (h : IsIdentifier [c]) :
    ∀ o ∈ (columnOperand c).operands, o.Valid ∧ o.Unsigned := by
  intro o ho
  obtain rfl := List.mem_singleton.mp ho
  exact ⟨⟨h, fun q hq => by cases hq⟩, trivial⟩

theorem digitOperand_valid {c : UInt8} (h : isDigit c = true) :
    ∀ o ∈ (digitOperand c).operands, o.Valid ∧ o.Unsigned := by
  intro o ho
  obtain rfl := List.mem_singleton.mp ho
  exact ⟨⟨by simp, by simpa using h⟩, rfl⟩

/-- `a - b + 1`. -/
def aMinusBPlusOne : AdditiveExpr :=
  .chain (columnOperand 97) (.cons .minus (columnOperand 98) (.cons .plus (digitOperand 49) .nil))

theorem sameTree_aMinusBPlusOne : aMinusBPlusOne.Simple ∧ SameTree aMinusBPlusOne := by
  have ha := columnOperand_valid (isIdentifier_letter (c := 97) rfl (by decide))
  have hb := columnOperand_valid (isIdentifier_letter (c := 98) rfl (by decide))
  have hone := digitOperand_valid (c := 49) rfl
  have hsimple : aMinusBPlusOne.Simple := by
    refine ⟨⟨⟨trivial, trivial⟩, ⟨trivial, trivial⟩, ⟨trivial, trivial⟩, trivial⟩, ?_⟩
    exact List.forall_mem_append.mpr ⟨ha, List.forall_mem_append.mpr ⟨hb,
      List.forall_mem_append.mpr ⟨hone, by simp [AdditiveRest.operands]⟩⟩⟩
  refine ⟨hsimple, (sameTree_iff _ hsimple).mpr ?_⟩
  have htokens : aMinusBPlusOne.tokens = [(.IDENTIFIER, [97]), (.MINUS, [45]),
      (.IDENTIFIER, [98]), (.PLUS, [43]), (.INTEGER, [49])] := by decide
  rw [htokens]
  simp [minusBeforeInteger_cons, not_minusBeforeInteger_nil]

/-- `a - 1` without its spaces is a column and an integer. -/
theorem a_minus_one_not_sameTree : ¬ ∀ e : AdditiveExpr, e.Simple → SameTree e := by
  intro h
  have ha := columnOperand_valid (isIdentifier_letter (c := 97) rfl (by decide))
  have hone := digitOperand_valid (c := 49) rfl
  have hsimple : (AdditiveExpr.chain (columnOperand 97)
      (.cons .minus (digitOperand 49) .nil)).Simple := by
    refine ⟨⟨⟨trivial, trivial⟩, ⟨trivial, trivial⟩, trivial⟩, ?_⟩
    exact List.forall_mem_append.mpr ⟨ha, List.forall_mem_append.mpr ⟨hone,
      by simp [AdditiveRest.operands]⟩⟩
  exact not_sameTree hsimple ⟨[identifierToken [97]], [], [49], rfl⟩ (h _ hsimple)

end Parsing

end Iic3413Db.Query
