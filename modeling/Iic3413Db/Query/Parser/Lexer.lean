/-
  Query/Parser/Lexer.lean --- `grammar/IIC3413DBLexer.g4`: the rules in their order,
  and the token each kind of text is.

  A text of ASCII characters is the list of its bytes.  A token takes the longest word
  a rule matches, so what it is depends on what follows: each lemma of the last
  section says how a text has to go on.
-/
import Iic3413Db.Foundation.Lexing

set_option autoImplicit false

namespace Iic3413Db.Query

open Iic3413Db.Foundation
open RegularExpression (char star)

/-! ## The grammar -/

/-- The tokens. -/
inductive Token where
  | AND | AS | BETWEEN | CREATE | DISTINCT | DELETE | FROM | INSERT | INTO | INT | LIKE | LIMIT | OR
  | SELECT | STR | TABLE | VALUES | VACUUM | WHERE | LEFT | FULL | OUTER | JOIN | ON | UPDATE | SET
  | EC | EQ | NE | GT | LT | GE | LE | ASSIGN
  | COMMA | ASTERISK | MINUS | SLASH | MODULO | PLUS | DOT | L_PAR | R_PAR
  | INTEGER | STRING | IDENTIFIER | WHITE_SPACE | COMMENT_INPUT | LINE_COMMENT | UNRECOGNIZED
  deriving DecidableEq, Repr

/-- The bytes of a text. -/
def ascii (s : String) : List UInt8 := s.toList.map fun c => UInt8.ofNat c.toNat

/-- The words whose letters may be in either case. -/
def keywords : List (Token × String) :=
  [(.AND, "AND"), (.AS, "AS"), (.BETWEEN, "BETWEEN"), (.CREATE, "CREATE"),
    (.DISTINCT, "DISTINCT"), (.DELETE, "DELETE"), (.FROM, "FROM"), (.INSERT, "INSERT"),
    (.INTO, "INTO"), (.INT, "INT"), (.LIKE, "LIKE"), (.LIMIT, "LIMIT"), (.OR, "OR"),
    (.SELECT, "SELECT"), (.STR, "STR"), (.TABLE, "TABLE"), (.VALUES, "VALUES"),
    (.VACUUM, "VACUUM"), (.WHERE, "WHERE"), (.LEFT, "LEFT"), (.FULL, "FULL"), (.OUTER, "OUTER"),
    (.JOIN, "JOIN"), (.ON, "ON"), (.UPDATE, "UPDATE"), (.SET, "SET")]

/-- The rules that match one text. -/
def punctuation : List (Token × String) :=
  [(.EC, ";"), (.EQ, "=="), (.NE, "!="), (.GT, ">"), (.LT, "<"), (.GE, ">="), (.LE, "<="),
    (.ASSIGN, "="), (.COMMA, ","), (.ASTERISK, "*"), (.MINUS, "-"), (.SLASH, "/"), (.MODULO, "%"),
    (.PLUS, "+"), (.DOT, "."), (.L_PAR, "("), (.R_PAR, ")")]

def isDigit (c : UInt8) : Bool := decide (48 ≤ c ∧ c ≤ 57)

def isLetter (c : UInt8) : Bool := decide (65 ≤ c ∧ c ≤ 90 ∨ 97 ≤ c ∧ c ≤ 122)

def isWordChar (c : UInt8) : Bool := isLetter c || isDigit c || decide (c = 95)

/-- Space, tab, carriage return, newline. -/
def isSpace (c : UInt8) : Bool := decide (c = 32 ∨ c = 9 ∨ c = 13 ∨ c = 10)

/-- A set of characters. -/
def charset (p : UInt8 → Bool) : RegularExpression UInt8 :=
  oneOf (((List.range 256).map UInt8.ofNat).filter p)

/-- The fragments `A` to `Z` in a row. -/
def keywordExpr (s : String) : RegularExpression UInt8 :=
  inEach ((ascii s).map fun c => [c + 32, c])

/-- `MINUS? DIGIT+`. -/
def integerExpr : RegularExpression UInt8 :=
  (char 45 + 1) * (charset isDigit * star (charset isDigit))

/-- What stands between the quotes of a STRING. -/
def bodyExpr : RegularExpression UInt8 := star (charset (fun c => c ≠ 34) + char 92 * char 34)

def identifierExpr : RegularExpression UInt8 := charset isLetter * star (charset isWordChar)

def spaceExpr : RegularExpression UInt8 := charset isSpace * star (charset isSpace)

/-- `/*` and `*/` around anything. -/
def commentExpr : RegularExpression UInt8 :=
  exactly (ascii "/*") * (star (charset fun _ => true) * exactly (ascii "*/"))

/-- A line comment up to its newline. -/
def lineExpr : RegularExpression UInt8 :=
  (exactly (ascii "--") * star (charset fun c => c = 32 ∨ c = 9) + char 35) *
    star (charset fun c => c ≠ 13 ∧ c ≠ 10)

def newlineExpr : RegularExpression UInt8 := (char 13 + 1) * char 10

/-- The rules after the fixed texts. -/
def otherRules : List (Rule UInt8 Token) :=
  [{ token := .INTEGER, expr := integerExpr },
    { token := .STRING, expr := char 34 * (bodyExpr * char 34) },
    { token := .IDENTIFIER, expr := identifierExpr },
    { token := .WHITE_SPACE, expr := spaceExpr },
    { token := .COMMENT_INPUT, expr := commentExpr, greedy := false },
    { token := .LINE_COMMENT
      expr := lineExpr * newlineExpr + exactly (ascii "--") * newlineExpr
      atEnd := lineExpr + exactly (ascii "--") },
    { token := .UNRECOGNIZED, expr := charset fun _ => true }]

/-- The lexer. -/
def rules : List (Rule UInt8 Token) :=
  keywords.map (fun k => { token := k.1, expr := keywordExpr k.2 }) ++
    (punctuation.map (fun p => { token := p.1, expr := exactly (ascii p.2) }) ++ otherRules)

/-- The parser sees the tokens of the default channel. -/
def Token.visible : Token → Bool
  | .WHITE_SPACE | .COMMENT_INPUT | .LINE_COMMENT => false
  | _ => true

/-- What the parser sees. -/
def visible (tokens : List (Token × List UInt8)) : List (Token × List UInt8) :=
  tokens.filter fun t => t.1.visible

/-! ## Characters -/

section Characters

variable {c : UInt8} {p : UInt8 → Bool} {x : List UInt8}

theorem mem_bytes (c : UInt8) : c ∈ (List.range 256).map UInt8.ofNat :=
  List.mem_map.mpr ⟨c.toNat, List.mem_range.mpr c.toNat_lt, UInt8.ofNat_toNat⟩

theorem mem_charset : x ∈ (charset p).matches' ↔ ∃ c, p c = true ∧ x = [c] := by
  rw [charset, mem_oneOf]
  constructor
  · rintro ⟨c, hc, rfl⟩
    exact ⟨c, (List.mem_filter.mp hc).2, rfl⟩
  · rintro ⟨c, hc, rfl⟩
    exact ⟨c, List.mem_filter.mpr ⟨mem_bytes c, hc⟩, rfl⟩

theorem mem_star_charset : x ∈ (star (charset p)).matches' ↔ ∀ c ∈ x, p c = true := by
  rw [charset, mem_star_oneOf]
  exact ⟨fun h c hc => (List.mem_filter.mp (h c hc)).2,
    fun h c hc => List.mem_filter.mpr ⟨mem_bytes c, h c hc⟩⟩

/-- One and more of a set. -/
theorem mem_charset_star {q : UInt8 → Bool} : x ∈ (charset p * star (charset q)).matches' ↔
    ∃ c cs, x = c :: cs ∧ p c = true ∧ ∀ d ∈ cs, q d = true := by
  rw [mem_mul_matches]
  constructor
  · rintro ⟨u, hu, v, hv, rfl⟩
    obtain ⟨c, hc, rfl⟩ := mem_charset.mp hu
    exact ⟨c, v, rfl, hc, mem_star_charset.mp hv⟩
  · rintro ⟨c, cs, rfl, hc, hcs⟩
    exact ⟨[c], mem_charset.mpr ⟨c, hc, rfl⟩, cs, mem_star_charset.mpr hcs, rfl⟩

theorem isWordChar_of_isLetter (h : isLetter c = true) : isWordChar c = true := by
  simp [isWordChar, h]

theorem isDigit_eq_false_of_isLetter (h : isLetter c = true) : isDigit c = false := by
  simp only [isLetter, isDigit, decide_eq_true_eq, decide_eq_false_iff_not, UInt8.le_iff_toNat_le] at *
  have h65 : (65 : UInt8).toNat = 65 := rfl
  have h90 : (90 : UInt8).toNat = 90 := rfl
  have h97 : (97 : UInt8).toNat = 97 := rfl
  have h122 : (122 : UInt8).toNat = 122 := rfl
  have h48 : (48 : UInt8).toNat = 48 := rfl
  have h57 : (57 : UInt8).toNat = 57 := rfl
  omega

theorem isSpace_cases (h : isSpace c = true) : c = 32 ∨ c = 9 ∨ c = 13 ∨ c = 10 := by
  simpa [isSpace] using h

/-- A letter in upper case. -/
def toUpper (c : UInt8) : UInt8 := if 97 ≤ c ∧ c ≤ 122 then c - 32 else c

theorem toUpper_eq {d : UInt8} (hd : 65 ≤ d ∧ d ≤ 90) : toUpper c = d ↔ c ∈ [d + 32, d] := by
  have hfin : ∀ d c : Fin 256, 65 ≤ d.val ∧ d.val ≤ 90 →
      ((if 97 ≤ c.val ∧ c.val ≤ 122 then c.val - 32 else c.val) = d.val ↔
        c.val = d.val + 32 ∨ c.val = d.val) := by
    intro d c hd
    split <;> omega
  rw [UInt8.le_iff_toNat_le, UInt8.le_iff_toNat_le] at hd
  have hd : 65 ≤ d.toNat ∧ d.toNat ≤ 90 := hd
  have hcase := hfin ⟨d.toNat, d.toNat_lt⟩ ⟨c.toNat, c.toNat_lt⟩ hd
  have hupper : (toUpper c).toNat =
      if 97 ≤ c.toNat ∧ c.toNat ≤ 122 then c.toNat - 32 else c.toNat := by
    unfold toUpper
    simp only [UInt8.le_iff_toNat_le]
    have h97 : (97 : UInt8).toNat = 97 := rfl
    have h122 : (122 : UInt8).toNat = 122 := rfl
    rw [h97, h122]
    split
    · rename_i hrange
      rw [UInt8.toNat_sub_of_le _ _ (by
        rw [UInt8.le_iff_toNat_le]
        have h32 : (32 : UInt8).toNat = 32 := rfl
        omega)]
      rfl
    · rfl
  have hadd : (d + 32).toNat = d.toNat + 32 := by
    rw [UInt8.toNat_add]
    have h32 : (32 : UInt8).toNat = 32 := rfl
    omega
  simp only [List.mem_cons, List.not_mem_nil, or_false, ← UInt8.toNat_inj, hupper, hadd]
  exact hcase

end Characters

end Iic3413Db.Query
