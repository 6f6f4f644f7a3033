/-
  Server/Dispatch.lean --- `run_query` and the grammar: no statement is taken for a
  command.

  `run_query` compares the beginning of the text with the command words before
  anything is parsed.  The `query` rule of the grammar begins with one of five
  keywords, after spaces and comments.
-/
import Iic3413Db.Query.Parser.LongestMatch
import Iic3413Db.Server.Session

set_option autoImplicit false

namespace Iic3413Db.Server

open Iic3413Db.Foundation Iic3413Db.Storage
open Iic3413Db.System (Catalog)
open Iic3413Db.Query (Token rules visible ascii isLetter toUpper)

/-- The keywords a `query` begins with. -/
def statementWords : List (Token × String) :=
  [(.CREATE, "CREATE"), (.INSERT, "INSERT"), (.SELECT, "SELECT"), (.UPDATE, "UPDATE"),
    (.DELETE, "DELETE")]

/-- The words of `run_query`. -/
def commandWords : List String :=
  ["BEGIN TRANSACTION", "BEGIN TRANSACTION SNAPSHOT ISOLATION", "COMMIT", "ABORT", "VACUUM"]

section Heads

variable {query target w rest : List UInt8} {token : Token} {tokens : List (Token × List UInt8)}

theorem toLower_toUpper (c : UInt8) : Catalog.toLower (toUpper c) = Catalog.toLower c := by
  have hall : ∀ c ∈ (List.range 256).map UInt8.ofNat,
      Catalog.toLower (toUpper c) = Catalog.toLower c := by decide +kernel
  exact hall c (Query.mem_bytes c)

theorem isLetter_toLower (c : UInt8) : isLetter (Catalog.toLower c) = isLetter c := by
  have hall : ∀ c ∈ (List.range 256).map UInt8.ofNat,
      isLetter (Catalog.toLower c) = isLetter c := by decide +kernel
  exact hall c (Query.mem_bytes c)

/-- What `my_compare` says. -/
theorem myCompare_prefix (h : myCompare query target = true) :
    target.map Catalog.toLower <+: query.map Catalog.toLower := by
  unfold myCompare at h
  split at h
  · cases h
  · rename_i hlength
    induction target generalizing query with
    | nil => exact List.nil_prefix
    | cons t target ih =>
        cases query with
        | nil => exact absurd (Nat.zero_lt_succ target.length) hlength
        | cons c query =>
            rw [List.zip_cons_cons, List.all_cons, Bool.and_eq_true] at h
            have hc : Catalog.toLower c = Catalog.toLower t := of_decide_eq_true h.1
            rw [List.map_cons, List.map_cons, hc, List.cons_prefix_cons]
            exact ⟨rfl, ih (fun hlt => hlength (Nat.succ_lt_succ hlt)) h.2⟩

/-- The rule of a keyword of a statement. -/
theorem rule_statement {r : Rule UInt8 Token} {word : String}
    (hr : r ∈ rules) (hword : (r.token, word) ∈ statementWords) :
    r = { token := r.token, expr := Query.keywordExpr word } := by
  have hall : ∀ p ∈ statementWords, p ∈ Query.keywords ∧
      (∀ k ∈ Query.keywords, k.1 = p.1 → k = p) ∧ (∀ q ∈ Query.punctuation, q.1 ≠ p.1) := by
    decide
  obtain ⟨_, hunique, hpunctuation⟩ := hall _ hword
  rcases List.mem_append.mp hr with hr | hr
  · obtain ⟨k, hk, rfl⟩ := List.mem_map.mp hr
    rw [hunique k hk rfl]
  rcases List.mem_append.mp hr with hr | hr
  · obtain ⟨p, hp, rfl⟩ := List.mem_map.mp hr
    exact absurd rfl (hpunctuation p hp)
  · simp only [Query.otherRules, List.mem_cons, List.not_mem_nil, or_false] at hr
    rcases hr with rfl | rfl | rfl | rfl | rfl | rfl | rfl <;> simp [statementWords] at hword

/-- Spaces and comments do not begin with a letter. -/
theorem head_invisible {r : Rule UInt8 Token} (hr : r ∈ rules) (hvisible : r.token.visible = false)
    (h : w ∈ r.expr.matches' ∨ w ∈ r.atEnd.matches') :
    ∀ c ∈ w.head?, isLetter c = false := by
  have hline : ∀ {u v : List UInt8}, u ∈ Query.lineExpr.matches' →
      ∀ c ∈ (u ++ v).head?, isLetter c = false := by
    intro u v hu
    obtain ⟨a, ha, b, hb, rfl⟩ := mem_mul_matches.mp hu
    rcases mem_add_matches.mp ha with ha | ha
    · obtain ⟨d, hd, e, he, rfl⟩ := mem_mul_matches.mp ha
      rw [mem_exactly.mp hd]
      simp [ascii, isLetter]
    · rw [mem_char_matches.mp ha]
      simp [isLetter]
  rcases List.mem_append.mp hr with hr | hr
  · obtain ⟨k, hk, rfl⟩ := List.mem_map.mp hr
    have hall : ∀ k ∈ Query.keywords, k.1.visible = true := by decide
    rw [hall k hk] at hvisible
    cases hvisible
  rcases List.mem_append.mp hr with hr | hr
  · obtain ⟨p, hp, rfl⟩ := List.mem_map.mp hr
    have hall : ∀ p ∈ Query.punctuation, p.1.visible = true := by decide
    rw [hall p hp] at hvisible
    cases hvisible
  simp only [Query.otherRules, List.mem_cons, List.not_mem_nil, or_false] at hr
  rcases hr with rfl | rfl | rfl | rfl | rfl | rfl | rfl
  · cases hvisible
  · cases hvisible
  · cases hvisible
  · rcases h with h | h
    · obtain ⟨c, cs, rfl, hc, _⟩ := Query.mem_spaceExpr.mp h
      rcases Query.isSpace_cases hc with rfl | rfl | rfl | rfl <;> simp [isLetter]
    · exact absurd h notMem_zero_matches
  · rcases h with h | h
    · obtain ⟨u, hu, v, hv, rfl⟩ := mem_mul_matches.mp h
      rw [mem_exactly.mp hu]
      simp [ascii, isLetter]
    · exact absurd h notMem_zero_matches
  · rcases h with h | h
    · rcases mem_add_matches.mp h with h | h
      · obtain ⟨u, hu, v, hv, rfl⟩ := mem_mul_matches.mp h
        exact hline hu
      · obtain ⟨u, hu, v, hv, rfl⟩ := mem_mul_matches.mp h
        rw [mem_exactly.mp hu]
        simp [ascii, isLetter]
    · rcases mem_add_matches.mp h with h | h
      · have hhead := hline (v := []) h
        rwa [List.append_nil] at hhead
      · rw [mem_exactly.mp h]
        simp [ascii, isLetter]
  · cases hvisible

/-- How the text of a statement begins. -/
theorem statement_head {word : String} {more : List (Token × List UInt8)}
    (h : Lexes rules query tokens) (hvisible : visible tokens = (token, w) :: more)
    (hword : (token, word) ∈ statementWords) :
    (∀ c ∈ query.head?, isLetter c = false) ∨ ascii word <+: query.map toUpper := by
  cases h with
  | nil => cases hvisible
  | @cons first rest first' tokens hne hmunch _ =>
      obtain ⟨_, _, hfirst, _⟩ := munch_eq_some.mp hmunch
      obtain ⟨r, hr, htoken, hacc⟩ := exists_of_firstAt hfirst
      have hmem := Rule.mem_of_accepts hacc
      rw [List.take_left] at hmem
      cases hfirst' : first'.visible with
      | false =>
          refine .inl ?_
          have hhead := head_invisible hr (by rw [htoken, hfirst']) hmem
          obtain ⟨c, cs, rfl⟩ := List.exists_cons_of_ne_nil hne
          exact hhead
      | true =>
          have hkept : visible ((first', first) :: tokens) = (first', first) :: visible tokens :=
            List.filter_cons_of_pos hfirst'
          rw [hkept] at hvisible
          obtain ⟨heq, _⟩ := List.cons.inj hvisible
          obtain ⟨rfl, rfl⟩ := Prod.mk.inj heq
          rw [← htoken] at hword
          rw [rule_statement hr hword] at hmem
          have hall : ∀ p ∈ statementWords, ∀ c ∈ ascii p.2, 65 ≤ c ∧ c ≤ 90 := by decide +kernel
          have hupper := (Query.mem_keywordExpr (hall _ hword)).mp
            (hmem.resolve_right notMem_zero_matches)
          refine .inr ?_
          rw [hupper, List.map_append]
          exact List.prefix_append _ _

/-- The beginning of a statement is not that of a command. -/
theorem myCompare_statement {word command : String} {more : List (Token × List UInt8)}
    (h : Lexes rules query tokens) (hvisible : visible tokens = (token, w) :: more)
    (hword : (token, word) ∈ statementWords) (hcommand : command ∈ commandWords) :
    myCompare query (bytes command) = false := by
  by_contra hcompare
  have hprefix := myCompare_prefix (Bool.eq_true_of_not_eq_false hcompare)
  rcases statement_head h hvisible hword with hhead | hkeyword
  · -- the first letter of the command would be that of the text
    have hletter : ∀ c ∈ commandWords, ∃ t ts, (bytes c).map Catalog.toLower = t :: ts ∧
        isLetter t = true := by
      intro c hc
      simp only [commandWords, List.mem_cons, List.not_mem_nil, or_false] at hc
      rcases hc with rfl | rfl | rfl | rfl | rfl <;> exact ⟨_, _, rfl, rfl⟩
    obtain ⟨t, ts, heq, ht⟩ := hletter command hcommand
    rw [heq] at hprefix
    obtain ⟨rest, hrest⟩ := hprefix
    cases query with
    | nil => cases hrest
    | cons c query =>
        obtain ⟨rfl, _⟩ := List.cons.inj hrest
        rw [isLetter_toLower, hhead c rfl] at ht
        cases ht
  · have hlower : (ascii word).map Catalog.toLower <+: query.map Catalog.toLower := by
      have hmap := hkeyword.map Catalog.toLower
      rw [List.map_map] at hmap
      rwa [show Catalog.toLower ∘ toUpper = Catalog.toLower from funext toLower_toUpper] at hmap
    have hdiffer : ∀ p ∈ statementWords, ∀ c ∈ commandWords,
        ¬ (ascii p.2).map Catalog.toLower <+: (bytes c).map Catalog.toLower ∧
          ¬ (bytes c).map Catalog.toLower <+: (ascii p.2).map Catalog.toLower := by
      decide
    obtain ⟨hnot, hnot'⟩ := hdiffer _ hword _ hcommand
    rcases List.prefix_or_prefix_of_prefix hlower hprefix with h | h
    · exact hnot h
    · exact hnot' h

end Heads

/-- A text whose first token is the first of a `query` is handed to the parser, in any state a
session can be in. -/
theorem statement_executes {query w : List UInt8} {token : Token} {word : String}
    {tokens more : List (Token × List UInt8)} {state : Int} (txId : TxID)
    (h : Lexes rules query tokens) (hvisible : visible tokens = (token, w) :: more)
    (hword : (token, word) ∈ statementWords) (hstate : state = 0 ∨ state = 1) :
    runQuery state txId query = .execute (decide (state = 0)) := by
  have hnot : ∀ c ∈ commandWords, myCompare query (bytes c) = false :=
    fun c hc => myCompare_statement h hvisible hword hc
  obtain ⟨hbegin, _, hcommit, habort, hvacuum⟩ :
      myCompare query (bytes "BEGIN TRANSACTION") = false ∧
      myCompare query (bytes "BEGIN TRANSACTION SNAPSHOT ISOLATION") = false ∧
      myCompare query (bytes "COMMIT") = false ∧ myCompare query (bytes "ABORT") = false ∧
      myCompare query (bytes "VACUUM") = false := by
    simpa [commandWords] using hnot
  rcases hstate with rfl | rfl <;>
    simp [runQuery, hbegin, hcommit, habort, hvacuum]

/-- The keyword alone, in small letters. -/
theorem statement_executes_create :
    runQuery 1 7 (ascii "create") = .execute (decide ((1 : Int) = 0)) := by
  have hmunch : munch rules (ascii "create" ++ []) = some (.CREATE, 6) :=
    Query.munch_word (by decide) (by decide +kernel) (by simp)
  have hlexes : Lexes rules (ascii "create" ++ []) [(.CREATE, ascii "create")] :=
    .cons (by decide) hmunch .nil
  have hword : (Token.CREATE, "CREATE") ∈ statementWords := by decide
  exact statement_executes 7 hlexes rfl hword (.inr rfl)

end Iic3413Db.Server
