/-
  Query/Parser/ExpressionTokens.lean --- the tokens of a SET expression, and that they
  have one parse tree.

  `tokens` reads a tree of the grammar from left to right.  The grammar has empty
  operands and signs, and a tree of binary operators is still the only one with its
  tokens: an operand shows in its first token, and each chain of operators ends at a
  token that neither it nor anything inside can go on with.
-/
import Iic3413Db.Query.Optimizer.WrittenArithmetic
import Iic3413Db.Query.Parser.StringLiterals

set_option autoImplicit false

namespace Iic3413Db.Query

open Iic3413Db.Foundation

/-! ## Tokens of a tree -/

/-- The rule `keyword`: the keywords that may be names. -/
def keywordRule : List Token :=
  [.AND, .AS, .BETWEEN, .CREATE, .DISTINCT, .FROM, .INSERT, .INTO, .INT, .LIKE, .LIMIT, .OR,
    .SELECT, .SET, .STR, .TABLE, .UPDATE, .VALUES, .WHERE]

/-- `identifier: IDENTIFIER | keyword`. -/
structure IsIdentifier (w : List UInt8) : Prop where
  word : ∃ c cs, w = c :: cs ∧ isLetter c = true ∧ ∀ d ∈ cs, isWordChar d = true
  token : wordToken w = .IDENTIFIER ∨ wordToken w ∈ keywordRule

def identifierToken (w : Identifier) : Token × List UInt8 := (wordToken w, w)

/-- `column: identifier ('.' identifier)?`. -/
def ColumnContext.tokens (ctx : ColumnContext) : List (Token × List UInt8) :=
  match ctx.qualifier with
  | some q => [identifierToken q, (.DOT, [46]), identifierToken ctx.name]
  | none => [identifierToken ctx.name]

/-- `constant: INTEGER | STRING`. -/
def ConstantContext.token : ConstantContext → Token × List UInt8
  | .string body => (.STRING, literal body)
  | .integer t => (.INTEGER, t.getText)

/-- The texts of the leaves are of their rules. -/
def ColumnOrConstant.Valid : ColumnOrConstant → Prop
  | .column ctx => IsIdentifier ctx.name ∧ ∀ q, ctx.qualifier = some q → IsIdentifier q
  | .constant (.string body) => QuotesEscaped body
  | .constant (.integer t) => t.digits ≠ [] ∧ ∀ d ∈ t.digits, isDigit d = true

def AdditiveOp.token : AdditiveOp → Token × List UInt8
  | .plus => (.PLUS, [43])
  | .minus => (.MINUS, [45])

def MultiplicativeOp.token : MultiplicativeOp → Token × List UInt8
  | .times => (.ASTERISK, [42])
  | .divide => (.SLASH, [47])
  | .modulo => (.MODULO, [37])

mutual

/-- The tokens of the tree, from the left. -/
def AdditiveExpr.tokens : AdditiveExpr → List (Token × List UInt8)
  | .chain first rest => first.tokens ++ rest.tokens

def AdditiveRest.tokens : AdditiveRest → List (Token × List UInt8)
  | .nil => []
  | .cons op operand rest => op.token :: (operand.tokens ++ rest.tokens)

def MultiplicativeExpr.tokens : MultiplicativeExpr → List (Token × List UInt8)
  | .chain first rest => first.tokens ++ rest.tokens

def MultiplicativeRest.tokens : MultiplicativeRest → List (Token × List UInt8)
  | .nil => []
  | .cons op operand rest => op.token :: (operand.tokens ++ rest.tokens)

def UnaryExpr.tokens : UnaryExpr → List (Token × List UInt8)
  | .empty => []
  | .atomic e => e.tokens
  | .plus e => (.PLUS, [43]) :: e.tokens
  | .minus e => (.MINUS, [45]) :: e.tokens

def AtomicExpr.tokens : AtomicExpr → List (Token × List UInt8)
  | .empty => []
  | .constant ctx => [ctx.token]
  | .parentheses e => (.L_PAR, [40]) :: (e.tokens ++ [(.R_PAR, [41])])
  | .column ctx => ctx.tokens

end

mutual

/-- No operand is empty and none has a sign. -/
def AdditiveExpr.Binary : AdditiveExpr → Prop
  | .chain first rest => first.Binary ∧ rest.Binary

def AdditiveRest.Binary : AdditiveRest → Prop
  | .nil => True
  | .cons _ operand rest => operand.Binary ∧ rest.Binary

def MultiplicativeExpr.Binary : MultiplicativeExpr → Prop
  | .chain first rest => first.Binary ∧ rest.Binary

def MultiplicativeRest.Binary : MultiplicativeRest → Prop
  | .nil => True
  | .cons _ operand rest => operand.Binary ∧ rest.Binary

def UnaryExpr.Binary : UnaryExpr → Prop
  | .empty | .plus _ | .minus _ => False
  | .atomic e => e.Binary

def AtomicExpr.Binary : AtomicExpr → Prop
  | .empty => False
  | .constant _ | .column _ => True
  | .parentheses e => e.Binary

end

/-- A column, or an integer without a sign. -/
def ColumnOrConstant.Unsigned : ColumnOrConstant → Prop
  | .column _ => True
  | .constant (.string _) => False
  | .constant (.integer t) => t.minus = false

/-- Built from columns, integers without a sign, parentheses and binary operators. -/
structure AdditiveExpr.Simple (e : AdditiveExpr) : Prop where
  binary : e.Binary
  operands : ∀ o ∈ e.operands, o.Valid ∧ o.Unsigned

/-- The text is the expression with this tree. -/
def Parses (text : List UInt8) (t : AdditiveExpr) : Prop :=
  (∀ o ∈ t.operands, o.Valid) ∧ (tokenize rules text).map visible = some t.tokens

/-! ## First tokens -/

/-- The rest of the tokens begins with one of these, or there is none. -/
def StopsAt (stops : List Token) (r : List (Token × List UInt8)) : Prop :=
  ∀ t, r.head? = some t → t.1 ∈ stops

/-- What ends an operand. -/
def operandEnds : List Token := [.R_PAR, .PLUS, .MINUS, .ASTERISK, .SLASH, .MODULO]

section First

variable {w : List UInt8} {r : List (Token × List UInt8)} {stops stops' : List Token}

theorem StopsAt.mono (h : StopsAt stops r) (hsub : stops ⊆ stops') : StopsAt stops' r :=
  fun t ht => hsub (h t ht)

theorem stopsAt_nil (stops : List Token) : StopsAt stops [] := fun _ ht => by cases ht

theorem stopsAt_cons {t : Token × List UInt8} (ht : t.1 ∈ stops) : StopsAt stops (t :: r) := by
  intro t' ht'
  rwa [← Option.some.inj ht']

/-- No operand begins with a token that ends one. -/
theorem not_stopsAt {t : Token × List UInt8} (h : StopsAt stops (t :: r)) (ht : t.1 ∉ stops) :
    False := ht (h t rfl)

/-- The tokens that are not names. -/
def notNames : List Token := .DOT :: .L_PAR :: .INTEGER :: .STRING :: operandEnds

theorem IsIdentifier.notMem (h : IsIdentifier w) : wordToken w ∉ notNames := by
  rcases h.token with htoken | htoken
  · rw [htoken]
    decide
  · intro hmem
    have hdisjoint : ∀ t ∈ keywordRule, t ∉ notNames := by decide
    exact hdisjoint _ htoken hmem

theorem IsIdentifier.ne (h : IsIdentifier w) {t : Token} (ht : t ∈ notNames) :
    wordToken w ≠ t := by
  rintro rfl
  exact h.notMem ht

/-- A column begins with a name. -/
theorem ColumnContext.tokens_head {ctx : ColumnContext} (h : ColumnOrConstant.Valid (.column ctx)) :
    ∃ q more, ctx.tokens = identifierToken q :: more ∧ IsIdentifier q := by
  obtain ⟨hname, hqualifier⟩ := h
  unfold tokens
  cases hq : ctx.qualifier with
  | none => exact ⟨_, _, rfl, hname⟩
  | some q => exact ⟨_, _, rfl, hqualifier q hq⟩

/-- An operand shows in its first token. -/
theorem AtomicExpr.tokens_head {e : AtomicExpr} (hb : e.Binary)
    (ho : ∀ o ∈ e.operands, o.Valid ∧ o.Unsigned) :
    ∃ t more, e.tokens = t :: more ∧ t.1 ∉ operandEnds := by
  cases e with
  | empty => exact hb.elim
  | constant ctx =>
      cases ctx with
      | string body => exact ⟨(.STRING, literal body), [], rfl, (by decide : Token.STRING ∉ operandEnds)⟩
      | integer t => exact ⟨(.INTEGER, t.getText), [], rfl, (by decide : Token.INTEGER ∉ operandEnds)⟩
  | parentheses e => exact ⟨_, _, rfl, by decide⟩
  | column ctx =>
      obtain ⟨hvalid, _⟩ := ho (.column ctx) (by simp [AtomicExpr.operands])
      obtain ⟨q, more, htokens, hq⟩ := ctx.tokens_head hvalid
      refine ⟨_, more, htokens, fun hmem => hq.notMem ?_⟩
      exact List.mem_cons_of_mem _ (List.mem_cons_of_mem _ (List.mem_cons_of_mem _
        (List.mem_cons_of_mem _ hmem)))

theorem AdditiveRest.stopsAt (rest : AdditiveRest) (h : StopsAt [.R_PAR] r) :
    StopsAt [.R_PAR, .PLUS, .MINUS] (rest.tokens ++ r) := by
  cases rest with
  | nil => exact h.mono (by simp)
  | cons op operand rest =>
      refine stopsAt_cons ?_
      cases op <;> decide

theorem MultiplicativeRest.stopsAt (rest : MultiplicativeRest)
    (h : StopsAt [.R_PAR, .PLUS, .MINUS] r) : StopsAt operandEnds (rest.tokens ++ r) := by
  cases rest with
  | nil => exact h.mono (by decide)
  | cons op operand rest =>
      refine stopsAt_cons ?_
      cases op <;> decide

end First

/-! ## One tree -/

section Leaves

variable {r r' : List (Token × List UInt8)}

/-- An integer has one text. -/
theorem IntegerToken.getText_inj {t t' : IntegerToken}
    (h : ColumnOrConstant.Valid (.constant (.integer t)))
    (h' : ColumnOrConstant.Valid (.constant (.integer t')))
    (heq : t.getText = t'.getText) : t = t' := by
  obtain ⟨minus, digits⟩ := t
  obtain ⟨minus', digits'⟩ := t'
  have hhead : ∀ {ds : List UInt8}, (∀ d ∈ ds, isDigit d = true) → ∀ ds', ds ≠ 45 :: ds' := by
    rintro ds hds ds' rfl
    have hdigit := hds 45 (by simp)
    cases hdigit
  cases minus with
  | false =>
      cases minus' with
      | false =>
          have heq : digits = digits' := heq
          rw [heq]
      | true => exact (hhead h.2 _ heq).elim
  | true =>
      cases minus' with
      | false => exact (hhead h'.2 _ heq.symm).elim
      | true =>
          have heq : digits = digits' := (List.cons.inj heq).2
          rw [heq]

/-- A column ends where no dot follows. -/
theorem ColumnContext.unique {c c' : ColumnContext} (hr : StopsAt operandEnds r)
    (hr' : StopsAt operandEnds r') (heq : c.tokens ++ r = c'.tokens ++ r') : c' = c ∧ r' = r := by
  obtain ⟨qualifier, name⟩ := c
  obtain ⟨qualifier', name'⟩ := c'
  cases qualifier with
  | none =>
      cases qualifier' with
      | none =>
          simp only [tokens, identifierToken, List.cons_append, List.nil_append, List.cons.injEq,
            Prod.mk.injEq] at heq
          obtain ⟨⟨_, rfl⟩, rfl⟩ := heq
          exact ⟨rfl, rfl⟩
      | some q' =>
          simp only [tokens, List.cons_append, List.nil_append, List.cons.injEq] at heq
          rw [heq.2] at hr
          exact (not_stopsAt hr (by decide)).elim
  | some q =>
      cases qualifier' with
      | none =>
          simp only [tokens, List.cons_append, List.nil_append, List.cons.injEq] at heq
          rw [← heq.2] at hr'
          exact (not_stopsAt hr' (by decide)).elim
      | some q' =>
          simp only [tokens, identifierToken, List.cons_append, List.nil_append, List.cons.injEq,
            Prod.mk.injEq] at heq
          obtain ⟨⟨_, rfl⟩, _, ⟨_, rfl⟩, rfl⟩ := heq
          exact ⟨rfl, rfl⟩

end Leaves

mutual

/-- A tree of binary operators is the only one with its tokens. -/
theorem AdditiveExpr.unique (e : AdditiveExpr) (hb : e.Binary)
    (ho : ∀ o ∈ e.operands, o.Valid ∧ o.Unsigned) {t : AdditiveExpr}
    {r r' : List (Token × List UInt8)} (ht : ∀ o ∈ t.operands, o.Valid)
    (hr : StopsAt [.R_PAR] r) (hr' : StopsAt [.R_PAR] r')
    (heq : e.tokens ++ r = t.tokens ++ r') : t = e ∧ r' = r := by
  match e, t with
  | .chain first rest, .chain first' rest' =>
      obtain ⟨hbf, hbr⟩ := hb
      obtain ⟨hof, hor⟩ := List.forall_mem_append.mp ho
      obtain ⟨htf, htr⟩ := List.forall_mem_append.mp ht
      rw [AdditiveExpr.tokens, AdditiveExpr.tokens, List.append_assoc, List.append_assoc] at heq
      obtain ⟨rfl, hrest⟩ := first.unique hbf hof htf (rest.stopsAt hr) (rest'.stopsAt hr') heq
      obtain ⟨rfl, hr⟩ := rest.unique hbr hor htr hr hr' hrest.symm
      exact ⟨rfl, hr⟩

theorem AdditiveRest.unique (rest : AdditiveRest) (hb : rest.Binary)
    (ho : ∀ o ∈ rest.operands, o.Valid ∧ o.Unsigned) {rest' : AdditiveRest}
    {r r' : List (Token × List UInt8)} (ht : ∀ o ∈ rest'.operands, o.Valid)
    (hr : StopsAt [.R_PAR] r) (hr' : StopsAt [.R_PAR] r')
    (heq : rest.tokens ++ r = rest'.tokens ++ r') : rest' = rest ∧ r' = r := by
  match rest, rest' with
  | .nil, .nil => exact ⟨rfl, heq.symm⟩
  | .nil, .cons op operand rest' =>
      rw [AdditiveRest.tokens, List.nil_append] at heq
      rw [heq] at hr
      refine (not_stopsAt hr ?_).elim
      cases op <;> decide
  | .cons op operand rest, .nil =>
      rw [AdditiveRest.tokens.eq_1, List.nil_append] at heq
      rw [← heq] at hr'
      refine (not_stopsAt hr' ?_).elim
      cases op <;> decide
  | .cons op operand rest, .cons op' operand' rest' =>
      obtain ⟨hbo, hbr⟩ := hb
      obtain ⟨hoo, hor⟩ := List.forall_mem_append.mp ho
      obtain ⟨hto, htr⟩ := List.forall_mem_append.mp ht
      simp only [AdditiveRest.tokens, List.cons_append, List.append_assoc, List.cons.injEq] at heq
      obtain ⟨hop, heq⟩ := heq
      obtain ⟨rfl, hrest⟩ := operand.unique hbo hoo hto (rest.stopsAt hr) (rest'.stopsAt hr') heq
      obtain ⟨rfl, hr⟩ := rest.unique hbr hor htr hr hr' hrest.symm
      have hop : op' = op := by
        cases op <;> cases op' <;> first | rfl | cases hop
      rw [hop]
      exact ⟨rfl, hr⟩

theorem MultiplicativeExpr.unique (e : MultiplicativeExpr) (hb : e.Binary)
    (ho : ∀ o ∈ e.operands, o.Valid ∧ o.Unsigned) {t : MultiplicativeExpr}
    {r r' : List (Token × List UInt8)} (ht : ∀ o ∈ t.operands, o.Valid)
    (hr : StopsAt [.R_PAR, .PLUS, .MINUS] r) (hr' : StopsAt [.R_PAR, .PLUS, .MINUS] r')
    (heq : e.tokens ++ r = t.tokens ++ r') : t = e ∧ r' = r := by
  match e, t with
  | .chain first rest, .chain first' rest' =>
      obtain ⟨hbf, hbr⟩ := hb
      obtain ⟨hof, hor⟩ := List.forall_mem_append.mp ho
      obtain ⟨htf, htr⟩ := List.forall_mem_append.mp ht
      rw [MultiplicativeExpr.tokens, MultiplicativeExpr.tokens, List.append_assoc,
        List.append_assoc] at heq
      obtain ⟨rfl, hrest⟩ := first.unique hbf hof htf (rest.stopsAt hr) (rest'.stopsAt hr') heq
      obtain ⟨rfl, hr⟩ := rest.unique hbr hor htr hr hr' hrest.symm
      exact ⟨rfl, hr⟩

theorem MultiplicativeRest.unique (rest : MultiplicativeRest) (hb : rest.Binary)
    (ho : ∀ o ∈ rest.operands, o.Valid ∧ o.Unsigned) {rest' : MultiplicativeRest}
    {r r' : List (Token × List UInt8)} (ht : ∀ o ∈ rest'.operands, o.Valid)
    (hr : StopsAt [.R_PAR, .PLUS, .MINUS] r) (hr' : StopsAt [.R_PAR, .PLUS, .MINUS] r')
    (heq : rest.tokens ++ r = rest'.tokens ++ r') : rest' = rest ∧ r' = r := by
  match rest, rest' with
  | .nil, .nil => exact ⟨rfl, heq.symm⟩
  | .nil, .cons op operand rest' =>
      rw [MultiplicativeRest.tokens, List.nil_append] at heq
      rw [heq] at hr
      refine (not_stopsAt hr ?_).elim
      cases op <;> decide
  | .cons op operand rest, .nil =>
      rw [MultiplicativeRest.tokens.eq_1, List.nil_append] at heq
      rw [← heq] at hr'
      refine (not_stopsAt hr' ?_).elim
      cases op <;> decide
  | .cons op operand rest, .cons op' operand' rest' =>
      obtain ⟨hbo, hbr⟩ := hb
      obtain ⟨hoo, hor⟩ := List.forall_mem_append.mp ho
      obtain ⟨hto, htr⟩ := List.forall_mem_append.mp ht
      simp only [MultiplicativeRest.tokens, List.cons_append, List.append_assoc,
        List.cons.injEq] at heq
      obtain ⟨hop, heq⟩ := heq
      obtain ⟨rfl, hrest⟩ := operand.unique hbo hoo hto (rest.stopsAt hr) (rest'.stopsAt hr') heq
      obtain ⟨rfl, hr⟩ := rest.unique hbr hor htr hr hr' hrest.symm
      have hop : op' = op := by
        cases op <;> cases op' <;> first | rfl | cases hop
      rw [hop]
      exact ⟨rfl, hr⟩

/-- A sign is no operand, and an empty one leaves the operand to nobody. -/
theorem UnaryExpr.unique (e : UnaryExpr) (hb : e.Binary)
    (ho : ∀ o ∈ e.operands, o.Valid ∧ o.Unsigned) {t : UnaryExpr}
    {r r' : List (Token × List UInt8)} (ht : ∀ o ∈ t.operands, o.Valid)
    (hr : StopsAt operandEnds r) (hr' : StopsAt operandEnds r')
    (heq : e.tokens ++ r = t.tokens ++ r') : t = e ∧ r' = r := by
  match e with
  | .atomic a =>
      obtain ⟨first, more, hfirst, hno⟩ := a.tokens_head hb ho
      match t with
      | .atomic a' =>
          obtain ⟨rfl, hr⟩ := a.unique hb ho ht hr hr' heq
          exact ⟨rfl, hr⟩
      | .empty =>
          rw [UnaryExpr.tokens, UnaryExpr.tokens, hfirst, List.nil_append] at heq
          rw [← heq] at hr'
          exact (not_stopsAt hr' hno).elim
      | .plus e =>
          rw [UnaryExpr.tokens, UnaryExpr.tokens, hfirst] at heq
          rw [(List.cons.inj heq).1] at hno
          exact absurd (by decide) hno
      | .minus e =>
          rw [UnaryExpr.tokens, UnaryExpr.tokens, hfirst] at heq
          rw [(List.cons.inj heq).1] at hno
          exact absurd (by decide) hno

theorem AtomicExpr.unique (e : AtomicExpr) (hb : e.Binary)
    (ho : ∀ o ∈ e.operands, o.Valid ∧ o.Unsigned) {t : AtomicExpr}
    {r r' : List (Token × List UInt8)} (ht : ∀ o ∈ t.operands, o.Valid)
    (hr : StopsAt operandEnds r) (hr' : StopsAt operandEnds r')
    (heq : e.tokens ++ r = t.tokens ++ r') : t = e ∧ r' = r := by
  obtain ⟨first, more, hfirst, hno⟩ := e.tokens_head hb ho
  match e, t with
  | e, .empty =>
      rw [AtomicExpr.tokens.eq_1, hfirst, List.nil_append] at heq
      rw [← heq] at hr'
      exact (not_stopsAt hr' hno).elim
  | .constant (.integer n), .constant (.integer n') =>
      simp only [AtomicExpr.tokens, ConstantContext.token, List.cons_append, List.nil_append,
        List.cons.injEq, Prod.mk.injEq] at heq
      have hn := (ho (.constant (.integer n)) (by simp [AtomicExpr.operands])).1
      have hn' := ht (.constant (.integer n')) (by simp [AtomicExpr.operands])
      rw [IntegerToken.getText_inj hn hn' heq.1.2, heq.2]
      exact ⟨rfl, rfl⟩
  | .constant (.string body), _ =>
      have hunsigned := (ho (.constant (.string body)) (by simp [AtomicExpr.operands])).2
      exact hunsigned.elim
  | .constant (.integer n), .constant (.string body) => cases (List.cons.inj heq).1
  | .constant (.integer n), .parentheses e => cases (List.cons.inj heq).1
  | .constant (.integer n), .column c =>
      obtain ⟨q, more', htokens, hq⟩ := c.tokens_head (ht (.column c) (by simp [AtomicExpr.operands]))
      simp only [AtomicExpr.tokens, ConstantContext.token, htokens, List.cons_append,
        List.cons.injEq, identifierToken, Prod.mk.injEq] at heq
      exact absurd heq.1.1.symm (hq.ne (by decide))
  | .parentheses e, .parentheses e' =>
      simp only [AtomicExpr.tokens, List.cons_append, List.append_assoc, List.nil_append,
        List.cons.injEq, true_and] at heq
      obtain ⟨rfl, hrest⟩ := e.unique hb ho ht (stopsAt_cons (by decide))
        (stopsAt_cons (by decide)) heq
      exact ⟨rfl, (List.cons.inj hrest).2⟩
  | .parentheses e, .constant (.integer n) => cases (List.cons.inj heq).1
  | .parentheses e, .constant (.string body) => cases (List.cons.inj heq).1
  | .parentheses e, .column c =>
      obtain ⟨q, more', htokens, hq⟩ := c.tokens_head (ht (.column c) (by simp [AtomicExpr.operands]))
      simp only [AtomicExpr.tokens, htokens, List.cons_append, List.cons.injEq, identifierToken,
        Prod.mk.injEq] at heq
      exact absurd heq.1.1.symm (hq.ne (by decide))
  | .column c, .column c' =>
      obtain ⟨rfl, hr⟩ := ColumnContext.unique hr hr' heq
      exact ⟨rfl, hr⟩
  | .column c, .constant ctx =>
      obtain ⟨hc, _⟩ := ho (.column c) (by simp [AtomicExpr.operands])
      obtain ⟨q, more', htokens, hq⟩ := c.tokens_head hc
      simp only [AtomicExpr.tokens, htokens, List.cons_append, List.cons.injEq, identifierToken]
        at heq
      cases ctx with
      | string body => exact absurd (Prod.mk.inj heq.1).1 (hq.ne (by decide))
      | integer n => exact absurd (Prod.mk.inj heq.1).1 (hq.ne (by decide))
  | .column c, .parentheses e =>
      obtain ⟨hc, _⟩ := ho (.column c) (by simp [AtomicExpr.operands])
      obtain ⟨q, more', htokens, hq⟩ := c.tokens_head hc
      simp only [AtomicExpr.tokens, htokens, List.cons_append, List.cons.injEq, identifierToken]
        at heq
      exact absurd (Prod.mk.inj heq.1).1 (hq.ne (by decide))

end

end Iic3413Db.Query
