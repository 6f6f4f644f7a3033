/-
  Query/Parser/StringLiterals.lean --- the lists of strings an INSERT can carry.

  `unescape_string` reads a literal two characters at a time, and a backslash that is
  not before one of its escapes stands for itself: two of them stay two.  So a string
  is the reading of some literal when no odd run of backslashes comes before a
  character that has an escape.  The lexer takes a backslash before the closing quote
  for an escape, and goes on to the next quote if there is one.
-/
import Iic3413Db.Query.Parser.LongestMatch
import Iic3413Db.Query.Parser.QueryPreprocessor

set_option autoImplicit false

namespace Iic3413Db.Query

open Iic3413Db.Foundation Iic3413Db.RelationalModel

/-! ## Strings that literals stand for -/

/-- The cases of the switch of `unescape_string`. -/
def hasEscape (c : UInt8) : Bool := decide (c ∈ [116, 110, 114, 98, 102, 34])

/-- No odd run of backslashes is followed by a character that has an escape. -/
def NoOddRun (s : List UInt8) : Prop :=
  ∀ pre post k c, s = pre ++ (List.replicate (2 * k + 1) 92 ++ c :: post) →
    pre.getLast? ≠ some 92 → hasEscape c = false

/-- The same, read from the left as the code reads. -/
def Plain : List UInt8 → Prop
  | [] => True
  | [_] => True
  | c :: d :: s => if c = 92 then hasEscape d = false ∧ Plain s else Plain (d :: s)

/-- A backslash before every quote. -/
def escapeQuotes (s : List UInt8) : List UInt8 := s.flatMap fun c => if c = 34 then [92, 34] else [c]

section Strings

variable {c d : UInt8} {s b : List UInt8}

theorem plain_cons (hc : c ≠ 92) : Plain (c :: s) ↔ Plain s := by
  cases s with
  | nil => exact Iff.rfl
  | cons d s => rw [Plain, if_neg hc]

theorem noOddRun_cons (hc : c ≠ 92) : NoOddRun (c :: s) ↔ NoOddRun s := by
  constructor
  · intro h pre post k e hsplit hlast
    refine h (c :: pre) post k e (by rw [hsplit]; rfl) ?_
    cases pre with
    | nil => simpa using hc
    | cons x pre => rwa [List.getLast?_cons_cons]
  · intro h pre post k e hsplit hlast
    cases pre with
    | nil =>
        rw [List.nil_append, List.replicate_succ] at hsplit
        exact absurd (List.cons.inj hsplit).1 hc
    | cons x pre =>
        refine h pre post k e (List.cons.inj hsplit).2 ?_
        cases pre with
        | nil => simp
        | cons y pre => rwa [List.getLast?_cons_cons] at hlast

theorem noOddRun_pair : NoOddRun (92 :: d :: s) ↔ hasEscape d = false ∧ NoOddRun s := by
  constructor
  · intro h
    refine ⟨h [] s 0 d rfl (by simp), fun pre post k e hsplit hlast => ?_⟩
    by_cases hrun : pre = [] ∧ d = 92
    · obtain ⟨rfl, rfl⟩ := hrun
      refine h [] post (k + 1) e ?_ (by simp)
      rw [hsplit, show 2 * (k + 1) + 1 = 2 * k + 1 + 1 + 1 from by omega, List.replicate_succ,
        List.replicate_succ]
      rfl
    · refine h (92 :: d :: pre) post k e (by rw [hsplit]; rfl) ?_
      rw [List.getLast?_cons_cons]
      cases pre with
      | nil => simpa using hrun
      | cons x pre => rwa [List.getLast?_cons_cons]
  · rintro ⟨hd, h⟩ pre post k e hsplit hlast
    match pre, hsplit, hlast with
    | [], hsplit, hlast =>
        cases k with
        | zero => rwa [← (List.cons.inj (List.cons.inj hsplit).2).1]
        | succ k =>
            rw [show 2 * (k + 1) + 1 = 2 * k + 1 + 1 + 1 from by omega, List.replicate_succ,
              List.replicate_succ] at hsplit
            exact h [] post k e (List.cons.inj (List.cons.inj hsplit).2).2 (by simp)
    | [x], hsplit, hlast =>
        rw [← (List.cons.inj hsplit).1] at hlast
        exact absurd rfl hlast
    | x :: y :: pre, hsplit, hlast =>
        refine h pre post k e (List.cons.inj (List.cons.inj hsplit).2).2 ?_
        cases pre with
        | nil => simp
        | cons z pre => rwa [List.getLast?_cons_cons, List.getLast?_cons_cons] at hlast

/-- The two ways of reading a string agree. -/
theorem plain_iff_noOddRun (s : List UInt8) : Plain s ↔ NoOddRun s := by
  induction s using Plain.induct with
  | case1 => exact ⟨fun _ pre post k e hsplit => by simp at hsplit, fun _ => trivial⟩
  | case2 c =>
      refine ⟨fun _ pre post k e hsplit => ?_, fun _ => trivial⟩
      have hlen := congrArg List.length hsplit
      simp at hlen
      omega
  | case3 d s ih => rw [Plain, if_pos rfl, ih, noOddRun_pair]
  | case4 c d s hc ih => rw [Plain, if_neg hc, ih, noOddRun_cons hc]

/-! ### Reading a literal -/

theorem escaped_of_hasEscape (h : hasEscape c = true) : ∃ d, escaped c = [d] ∧ d ≠ 92 := by
  have hcases : c = 116 ∨ c = 110 ∨ c = 114 ∨ c = 98 ∨ c = 102 ∨ c = 34 := by
    simpa [hasEscape] using h
  rcases hcases with rfl | rfl | rfl | rfl | rfl | rfl
  · exact ⟨9, rfl, by decide⟩
  · exact ⟨10, rfl, by decide⟩
  · exact ⟨13, rfl, by decide⟩
  · exact ⟨8, rfl, by decide⟩
  · exact ⟨12, rfl, by decide⟩
  · exact ⟨34, rfl, by decide⟩

theorem escaped_eq (h : hasEscape c = false) : escaped c = [92, c] := by
  have hcases : c ≠ 116 ∧ c ≠ 110 ∧ c ≠ 114 ∧ c ≠ 98 ∧ c ≠ 102 ∧ c ≠ 34 := by
    simpa [hasEscape] using h
  obtain ⟨ht, hn, hr, hb, hf, hq⟩ := hcases
  unfold escaped
  split <;> first | contradiction | rfl

theorem unescapeString_cons (hc : c ≠ 92) : unescapeString (c :: s) = c :: unescapeString s := by
  cases s with
  | nil => rfl
  | cons d s => rw [unescapeString, if_neg hc]

theorem unescapeString_pair : unescapeString (92 :: d :: s) = escaped d ++ unescapeString s := by
  rw [unescapeString, if_pos rfl]

/-- What a literal stands for has no odd run. -/
theorem plain_unescapeString (b : List UInt8) : Plain (unescapeString b) := by
  induction b using unescapeString.induct with
  | case1 => trivial
  | case2 c => trivial
  | case3 d b ih =>
      rw [unescapeString_pair]
      cases hd : hasEscape d with
      | true =>
          obtain ⟨e, he, hne⟩ := escaped_of_hasEscape hd
          rw [he]
          exact (plain_cons hne).mpr ih
      | false =>
          rw [escaped_eq hd]
          exact (if_pos rfl).mpr ⟨hd, ih⟩
  | case4 c d b hc ih =>
      rw [unescapeString_cons hc]
      exact (plain_cons hc).mpr ih

theorem escapeQuotes_cons (hc : c ≠ 34) : escapeQuotes (c :: s) = c :: escapeQuotes s := by
  rw [escapeQuotes, List.flatMap_cons, if_neg hc]
  rfl

theorem escapeQuotes_quote : escapeQuotes (34 :: s) = 92 :: 34 :: escapeQuotes s := rfl

/-- A string without odd runs is what its literal stands for. -/
theorem unescapeString_escapeQuotes (h : Plain s) : unescapeString (escapeQuotes s) = s := by
  induction s using Plain.induct with
  | case1 => rfl
  | case2 c =>
      by_cases hc : c = 34
      · rw [hc]
        rfl
      · rw [escapeQuotes_cons hc]
        rfl
  | case3 d s ih =>
      obtain ⟨hd, hs⟩ := (if_pos rfl).mp h
      have hquote : d ≠ 34 := by
        rintro rfl
        cases hd
      rw [escapeQuotes_cons (by decide), escapeQuotes_cons hquote, unescapeString_pair,
        escaped_eq hd, ih hs]
      rfl
  | case4 c d s hc ih =>
      have hs := ih ((plain_cons hc).mp h)
      by_cases hquote : c = 34
      · rw [hquote, escapeQuotes_quote, unescapeString_pair, hs]
        rfl
      · rw [escapeQuotes_cons hquote, unescapeString_cons hc, hs]

theorem quotesEscaped_escapeQuotes (s : List UInt8) : QuotesEscaped (escapeQuotes s) := by
  induction s with
  | nil => exact .nil
  | cons c s ih =>
      by_cases hc : c = 34
      · rw [hc, escapeQuotes_quote]
        exact ih.pair
      · rw [escapeQuotes_cons hc]
        exact ih.cons hc

/-! ### Last characters -/

theorem unescapeString_ne_nil (h : b ≠ []) : unescapeString b ≠ [] := by
  induction b using unescapeString.induct with
  | case1 => exact absurd rfl h
  | case2 c => simp [unescapeString]
  | case3 d b ih =>
      rw [unescapeString_pair]
      cases hd : hasEscape d with
      | true =>
          obtain ⟨e, he, _⟩ := escaped_of_hasEscape hd
          simp [he]
      | false => simp [escaped_eq hd]
  | case4 c d b hc ih => simp [unescapeString_cons hc]

/-- A string ends in a backslash only when its literal does. -/
theorem getLast?_of_unescapeString (h : (unescapeString b).getLast? = some 92) :
    b.getLast? = some 92 := by
  induction b using unescapeString.induct with
  | case1 => exact h
  | case2 c => exact h
  | case3 d b ih =>
      rw [unescapeString_pair] at h
      cases b with
      | nil =>
          rw [unescapeString, List.append_nil] at h
          cases hd : hasEscape d with
          | true =>
              obtain ⟨e, he, hne⟩ := escaped_of_hasEscape hd
              rw [he] at h
              exact absurd (Option.some.inj h) hne
          | false =>
              rw [escaped_eq hd] at h
              exact h
      | cons c b =>
          rw [List.getLast?_append_of_ne_nil _ (unescapeString_ne_nil (by simp))] at h
          rw [List.getLast?_cons_cons, List.getLast?_cons_cons]
          exact ih h
  | case4 c d b hc ih =>
      rw [unescapeString_cons hc] at h
      rw [List.getLast?_cons_cons]
      have hne := unescapeString_ne_nil (b := d :: b) (by simp)
      obtain ⟨e, s, hs⟩ := List.exists_cons_of_ne_nil hne
      rw [hs, List.getLast?_cons_cons, ← hs] at h
      exact ih h

/-- Escaping keeps the last character. -/
theorem getLast?_escapeQuotes (s : List UInt8) : (escapeQuotes s).getLast? = s.getLast? := by
  rcases List.eq_nil_or_concat s with rfl | ⟨init, c, rfl⟩
  · rfl
  · rw [List.concat_eq_append, escapeQuotes, List.flatMap_append, List.getLast?_concat]
    by_cases hc : c = 34
    · rw [hc]
      simp
    · simp [hc]

end Strings

/-! ## Insertions -/

/-- A STRING. -/
def literal (body : List UInt8) : List UInt8 := 34 :: (body ++ [34])

/-- The constants between the parentheses. -/
def literals : List (List UInt8) → List UInt8
  | [] => []
  | [b] => literal b
  | b :: b' :: bodies => literal b ++ 44 :: literals (b' :: bodies)

/-- `constant (',' constant)*`. -/
def literalTokens : List (List UInt8) → List (Token × List UInt8)
  | [] => []
  | [b] => [(.STRING, literal b)]
  | b :: b' :: bodies => (.STRING, literal b) :: (.COMMA, [44]) :: literalTokens (b' :: bodies)

/-- The text up to the constants. -/
def insertHead : List UInt8 := ascii "INSERT INTO t VALUES ("

/-- An INSERT of these literals. -/
def insertText (bodies : List (List UInt8)) : List UInt8 := insertHead ++ (literals bodies ++ [41])

/-- The tokens of `insertQuery`. -/
def insertTokens (bodies : List (List UInt8)) : List (Token × List UInt8) :=
  [(.INSERT, ascii "INSERT"), (.INTO, ascii "INTO"), (.IDENTIFIER, ascii "t"),
    (.VALUES, ascii "VALUES"), (.L_PAR, [40])] ++ (literalTokens bodies ++ [(.R_PAR, [41])])

/-- The lexer finds these literals, and they stand for these strings. -/
def Inserts (bodies ss : List (List UInt8)) : Prop :=
  (tokenize rules (insertText bodies)).map visible = some (insertTokens bodies) ∧
    List.Forall₂ (fun b s => getValue (.string b) = .ok (.string s)) bodies ss

/-- What a column of type STR can hold, of ASCII characters. -/
structure Storable (s : List UInt8) : Prop where
  short : s.length ≤ 255
  ascii : ∀ c ∈ s, c ≠ 0 ∧ c < 128

/-- The lists that some literals stand for. -/
structure Representable (ss : List (List UInt8)) : Prop where
  noOddRun : ∀ s ∈ ss, NoOddRun s
  closed : ∀ s ∈ ss.dropLast, s.getLast? ≠ some 92

section Insertions

variable {bodies ss : List (List UInt8)} {rest : List UInt8}
  {tokens : List (Token × List UInt8)}

/-- A word and a blank. -/
theorem lexes_word_blank {c d : UInt8} {w : List UInt8} (hc : isLetter c = true)
    (hw : w.all isWordChar = true) (hd : isSpace d = false) :
    Lexes rules (c :: (w ++ 32 :: d :: rest)) tokens ↔ ∃ more, Lexes rules (d :: rest) more ∧
      tokens = (wordToken (c :: w), c :: w) :: (.WHITE_SPACE, [32]) :: more := by
  have hword : munch rules ((c :: w) ++ 32 :: d :: rest) =
      some (wordToken (c :: w), (c :: w).length) := by
    refine munch_word hc (List.all_eq_true.mp hw) fun e he => ?_
    rw [← Option.some.inj he]
    rfl
  have hblank : munch rules ([32] ++ d :: rest) = some (.WHITE_SPACE, 1) := by
    refine munch_blank fun e he => ?_
    rwa [← Option.some.inj he]
  rw [← List.cons_append, lexes_append_iff (by simp) hword]
  constructor
  · rintro ⟨blank, rfl, hmore⟩
    obtain ⟨more, rfl, hrest⟩ := (lexes_append_iff (by simp) hblank).mp hmore
    exact ⟨more, hrest, rfl⟩
  · rintro ⟨more, hmore, rfl⟩
    exact ⟨_, rfl, (lexes_append_iff (by simp) hblank).mpr ⟨more, rfl, hmore⟩⟩

/-- The tokens before the constants. -/
def headTokens : List (Token × List UInt8) :=
  [(.INSERT, ascii "INSERT"), (.WHITE_SPACE, [32]), (.INTO, ascii "INTO"), (.WHITE_SPACE, [32]),
    (.IDENTIFIER, ascii "t"), (.WHITE_SPACE, [32]), (.VALUES, ascii "VALUES"),
    (.WHITE_SPACE, [32]), (.L_PAR, [40])]

/-- What follows the text before the constants does not change its tokens. -/
theorem lexes_insertHead : Lexes rules (insertHead ++ rest) tokens ↔
    ∃ more, Lexes rules rest more ∧ tokens = headTokens ++ more := by
  have hpar : munch rules ([40] ++ rest) = some (.L_PAR, 1) :=
    munch_single (p := (.L_PAR, "(")) (by decide) rfl (by decide)
  have htext : insertHead ++ rest = 73 :: ([78, 83, 69, 82, 84] ++ 32 :: 73 :: ([78, 84, 79] ++
      32 :: 116 :: ([] ++ 32 :: 86 :: ([65, 76, 85, 69, 83] ++ 32 :: 40 :: rest)))) := rfl
  rw [htext, lexes_word_blank rfl rfl rfl]
  constructor
  · rintro ⟨into, hinto, rfl⟩
    obtain ⟨name, hname, rfl⟩ := (lexes_word_blank rfl rfl rfl).mp hinto
    obtain ⟨values, hvalues, rfl⟩ := (lexes_word_blank rfl rfl rfl).mp hname
    obtain ⟨par, hpar', rfl⟩ := (lexes_word_blank rfl rfl rfl).mp hvalues
    obtain ⟨more, rfl, hmore⟩ := (lexes_append_iff (by simp) hpar).mp hpar'
    exact ⟨more, hmore, rfl⟩
  · rintro ⟨tokens, h, rfl⟩
    have h := (lexes_append_iff (by simp) hpar).mpr ⟨tokens, rfl, h⟩
    have h := (lexes_word_blank (c := 86) (d := 40) (w := [65, 76, 85, 69, 83]) rfl rfl rfl).mpr ⟨_, h, rfl⟩
    have h := (lexes_word_blank (c := 116) (d := 86) (w := []) rfl rfl rfl).mpr ⟨_, h, rfl⟩
    have h := (lexes_word_blank (c := 73) (d := 116) (w := [78, 84, 79]) rfl rfl rfl).mpr ⟨_, h, rfl⟩
    exact ⟨_, h, rfl⟩

/-! ### Lists of literals -/

/-- Literals that end where they should. -/
theorem lexes_literals (hbodies : ∀ b ∈ bodies, QuotesEscaped b)
    (hclosed : ∀ b ∈ bodies.dropLast, b.getLast? ≠ some 92) :
    Lexes rules (literals bodies ++ [41]) (literalTokens bodies ++ [(.R_PAR, [41])]) := by
  have hend : Lexes rules [41] [(.R_PAR, [41])] := by
    have hpar : munch rules ([41] ++ []) = some (.R_PAR, 1) :=
      munch_single (p := (.R_PAR, ")")) (by decide) rfl (by decide)
    exact .cons (by simp) hpar .nil
  induction bodies using literals.induct with
  | case1 => exact hend
  | case2 b =>
      exact .cons (by simp [literals, literal]) (munch_string (hbodies b (by simp)) (by simp)) hend
  | case3 b b' bodies ih =>
      rw [List.dropLast_cons_cons, List.forall_mem_cons] at hclosed
      have hrest := ih (List.forall_mem_cons.mp hbodies).2 hclosed.2
      have hcomma : munch rules ([44] ++ (literals (b' :: bodies) ++ [41])) = some (.COMMA, 1) :=
        munch_single (p := (.COMMA, ",")) (by decide) rfl (by decide)
      have hstring : munch rules (literal b ++ ([44] ++ (literals (b' :: bodies) ++ [41]))) =
          some (.STRING, (literal b).length) :=
        munch_string (hbodies b (by simp)) fun hlast => absurd hlast hclosed.1
      have htext : literals (b :: b' :: bodies) ++ [41] =
          literal b ++ ([44] ++ (literals (b' :: bodies) ++ [41])) := by simp [literals]
      rw [htext]
      exact .cons (by simp [literal]) hstring (.cons (by simp) hcomma hrest)

theorem visible_cons {t : Token × List UInt8} (ht : t.1.visible = true) :
    visible (t :: tokens) = t :: visible tokens := List.filter_cons_of_pos ht

theorem quote_mem_literals (b : List UInt8) (bodies : List (List UInt8)) :
    34 ∈ literals (b :: bodies) := by
  cases bodies <;> simp [literals, literal]

/-- Literals that the lexer finds end where they should. -/
theorem closed_of_lexes (hbodies : ∀ b ∈ bodies, QuotesEscaped b)
    (h : Lexes rules (literals bodies ++ [41]) tokens)
    (hvisible : visible tokens = literalTokens bodies ++ [(.R_PAR, [41])]) :
    ∀ b ∈ bodies.dropLast, b.getLast? ≠ some 92 := by
  induction bodies using literals.induct generalizing tokens with
  | case1 => simp
  | case2 b => simp
  | case3 b b' bodies ih =>
      have hb := hbodies b (by simp)
      have htext : literals (b :: b' :: bodies) ++ [41] =
          literal b ++ ([44] ++ (literals (b' :: bodies) ++ [41])) := by simp [literals]
      rw [htext] at h
      cases tokens with
      | nil => cases hvisible
      | cons t tokens =>
          obtain ⟨token, w⟩ := t
          have hmunch := h.head
          obtain ⟨rfl, _⟩ := munch_quote hb hmunch
          rw [visible_cons rfl] at hvisible
          obtain ⟨ht, hvisible⟩ := List.cons.inj hvisible
          rw [(Prod.mk.inj ht).2] at hmunch
          have hquote : 34 ∈ [44] ++ (literals (b' :: bodies) ++ [41]) := by
            simp [quote_mem_literals]
          have hlast : b.getLast? ≠ some 92 := fun hlast =>
            munch_string_longer hb hlast hquote hmunch
          obtain ⟨more, hmore, h⟩ := (lexes_append_iff (by simp [literal]) hmunch).mp h
          have hcomma : munch rules ([44] ++ (literals (b' :: bodies) ++ [41])) =
              some (.COMMA, 1) :=
            munch_single (p := (.COMMA, ",")) (by decide) rfl (by decide)
          obtain ⟨others, rfl, hothers⟩ := (lexes_append_iff (by simp) hcomma).mp h
          rw [(List.cons.inj hmore).2, visible_cons rfl] at hvisible
          rw [List.dropLast_cons_cons, List.forall_mem_cons]
          have hrest := ih (List.forall_mem_cons.mp hbodies).2 hothers (List.cons.inj hvisible).2
          exact ⟨hlast, hrest⟩

/-! ### Lists of strings -/

theorem getValue_string {b s : List UInt8} :
    getValue (.string b) = .ok (.string s) ↔ unescapeString b = s ∧ s.length ≤ 255 := by
  unfold getValue
  dsimp only
  split
  · rename_i hlong
    constructor
    · intro h
      cases h
    · rintro ⟨rfl, hshort⟩
      omega
  · rename_i hshort
    constructor
    · intro h
      cases h
      exact ⟨rfl, by omega⟩
    · rintro ⟨rfl, _⟩
      rfl

theorem eq_map_of_values
    (h : List.Forall₂ (fun b s => getValue (.string b) = .ok (.string s)) bodies ss) :
    ss = bodies.map unescapeString := by
  induction h with
  | nil => rfl
  | cons hvalue _ ih => rw [List.map_cons, ← ih, (getValue_string.mp hvalue).1]

theorem insertTokens_eq (bodies : List (List UInt8)) : insertTokens bodies =
    visible headTokens ++ (literalTokens bodies ++ [(.R_PAR, [41])]) := rfl

theorem visible_literalTokens (bodies : List (List UInt8)) :
    ∀ t ∈ literalTokens bodies, t.1.visible = true := by
  induction bodies using literals.induct with
  | case1 => simp [literalTokens]
  | case2 b => simp [literalTokens, Token.visible]
  | case3 b b' bodies ih => exact List.forall_mem_cons.mpr ⟨rfl, List.forall_mem_cons.mpr ⟨rfl, ih⟩⟩

theorem mem_literalTokens {b : List UInt8} (hb : b ∈ bodies) :
    (.STRING, literal b) ∈ literalTokens bodies := by
  induction bodies using literals.induct with
  | case1 => simp at hb
  | case2 b' =>
      rw [List.mem_singleton.mp hb]
      simp [literalTokens]
  | case3 b' b'' bodies ih =>
      rcases List.mem_cons.mp hb with rfl | hb
      · simp [literalTokens]
      · exact List.mem_cons_of_mem _ (List.mem_cons_of_mem _ (ih hb))

theorem quotesEscaped_of_shape {b : List UInt8} (h : Shape (literal b)) : QuotesEscaped b := by
  rcases Shape.of_quote h with ⟨body, heq, hbody⟩ | hnil
  · rwa [(List.append_inj' heq rfl).1]
  · simp at hnil

/-- No literals carry a list that is not representable. -/
theorem representable_of_inserts (h : Inserts bodies ss) : Representable ss := by
  obtain ⟨htokens, hvalues⟩ := h
  obtain ⟨tokens, htokens, hvisible⟩ := Option.map_eq_some_iff.mp htokens
  obtain ⟨more, hmore, rfl⟩ := lexes_insertHead.mp (tokenize_eq_some.mp htokens)
  have hliterals : visible more = literalTokens bodies ++ [(.R_PAR, [41])] := by
    rw [visible, List.filter_append, insertTokens_eq] at hvisible
    exact List.append_cancel_left hvisible
  have hbodies : ∀ b ∈ bodies, QuotesEscaped b := by
    intro b hb
    have hmem : (.STRING, literal b) ∈ visible more := by
      rw [hliterals]
      exact List.mem_append_left _ (mem_literalTokens hb)
    exact quotesEscaped_of_shape (shape_of_lexes hmore _ (List.mem_filter.mp hmem).1)
  have hclosed := closed_of_lexes hbodies hmore hliterals
  rw [eq_map_of_values hvalues]
  refine ⟨fun s hs => ?_, fun s hs hlast => ?_⟩
  · obtain ⟨b, _, rfl⟩ := List.mem_map.mp hs
    exact (plain_iff_noOddRun _).mp (plain_unescapeString b)
  · rw [← List.map_dropLast] at hs
    obtain ⟨b, hb, rfl⟩ := List.mem_map.mp hs
    exact hclosed b hb (getLast?_of_unescapeString hlast)

/-- A backslash before every quote is enough for the others. -/
theorem inserts_escapeQuotes (hss : ∀ s ∈ ss, s.length ≤ 255) (h : Representable ss) :
    Inserts (ss.map escapeQuotes) ss := by
  have hbodies : ∀ b ∈ ss.map escapeQuotes, QuotesEscaped b := by
    intro b hb
    obtain ⟨s, _, rfl⟩ := List.mem_map.mp hb
    exact quotesEscaped_escapeQuotes s
  have hclosed : ∀ b ∈ (ss.map escapeQuotes).dropLast, b.getLast? ≠ some 92 := by
    intro b hb
    rw [← List.map_dropLast] at hb
    obtain ⟨s, hs, rfl⟩ := List.mem_map.mp hb
    rw [getLast?_escapeQuotes]
    exact h.closed s hs
  have hlexes := lexes_literals hbodies hclosed
  have htokens := tokenize_eq_some.mpr (lexes_insertHead.mpr ⟨_, hlexes, rfl⟩)
  have hvisible : visible (literalTokens (ss.map escapeQuotes) ++ [(.R_PAR, [41])]) =
      literalTokens (ss.map escapeQuotes) ++ [(.R_PAR, [41])] := by
    refine List.filter_eq_self.mpr fun t ht => ?_
    rcases List.mem_append.mp ht with ht | ht
    · exact visible_literalTokens _ t ht
    · rw [List.mem_singleton.mp ht]
      rfl
  refine ⟨?_, ?_⟩
  · rw [insertText, htokens, Option.map_some, visible, List.filter_append]
    rw [visible] at hvisible
    rw [hvisible]
    rfl
  · rw [List.forall₂_map_left_iff, List.forall₂_same]
    intro s hs
    have hplain := (plain_iff_noOddRun s).mpr (h.noOddRun s hs)
    exact getValue_string.mpr ⟨unescapeString_escapeQuotes hplain, hss s hs⟩

/-- The lists some literals carry; one escaping serves for all of them. -/
theorem insertable_iff (ss : List (List UInt8)) (hss : ∀ s ∈ ss, Storable s) :
    (Inserts (ss.map escapeQuotes) ss ↔ Representable ss) ∧
      ((∃ bodies, Inserts bodies ss) ↔ Representable ss) := by
  have hshort : ∀ s ∈ ss, s.length ≤ 255 := fun s hs => (hss s hs).short
  constructor
  · exact ⟨representable_of_inserts, inserts_escapeQuotes hshort⟩
  · constructor
    · rintro ⟨bodies, h⟩
      exact representable_of_inserts h
    · intro h
      exact ⟨_, inserts_escapeQuotes hshort h⟩

/-- A quote, two backslashes before a `t`, and a backslash at the very end. -/
theorem insertable_iff_backslashes :
    (∀ s ∈ [[97, 34], [92, 92, 116], [92]], Storable s) ∧
      Inserts [[97, 92, 34], [92, 92, 116], [92]] [[97, 34], [92, 92, 116], [92]] := by
  have hss : ∀ s ∈ [[97, 34], [92, 92, 116], [92]], Storable s := by
    intro s hs
    simp only [List.mem_cons, List.not_mem_nil, or_false] at hs
    rcases hs with rfl | rfl | rfl
    · exact ⟨by simp, by simp⟩
    · exact ⟨by simp, by simp⟩
    · exact ⟨by simp, by simp⟩
  refine ⟨hss, (insertable_iff _ hss).1.mpr ⟨fun s hs => ?_, fun s hs => ?_⟩⟩
  · rw [← plain_iff_noOddRun]
    simp only [List.mem_cons, List.not_mem_nil, or_false] at hs
    rcases hs with rfl | rfl | rfl
    · simp [Plain]
    · simp [Plain, hasEscape]
    · trivial
  · simp only [List.dropLast_cons_cons, List.dropLast_singleton, List.mem_cons, List.not_mem_nil,
      or_false] at hs
    rcases hs with rfl | rfl
    · decide
    · decide

/-- A backslash and a `t` have no literal. -/
theorem backslash_t_not_insertable : ¬ ∃ escape : List UInt8 → List UInt8,
    ∀ ss, (∀ s ∈ ss, Storable s) → Inserts (ss.map escape) ss := by
  rintro ⟨escape, h⟩
  have hstorable : ∀ s ∈ [[92, 116]], Storable s := by
    intro s hs
    rw [List.mem_singleton.mp hs]
    exact ⟨by simp, by simp⟩
  have hrep := representable_of_inserts (h [[92, 116]] hstorable)
  have hescape := hrep.noOddRun [92, 116] (by simp) [] [] 0 116 rfl (by simp)
  exact absurd hescape (by decide)

end Insertions

end Iic3413Db.Query
