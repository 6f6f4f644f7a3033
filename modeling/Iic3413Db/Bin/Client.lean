/-
  Bin/Client.lean --- the loop of `main` in `bin/client.cc`: lines become queries.

  A line is what `linenoise` returns: a C string, here without its newline.  Lines
  are kept until one ends with a semicolon.
-/
import Mathlib.Data.List.DropRight
import Mathlib.Tactic.Common

set_option autoImplicit false

namespace Iic3413Db.Bin

/-- `'\n'`. -/
def newline : UInt8 := 10

/-- `';'`. -/
def semicolon : UInt8 := 59

/-- `"exit"`. -/
def exitCommand : List UInt8 := [101, 120, 105, 116]

/-- `std::isspace`. -/
def isSpace (c : UInt8) : Bool := decide (c = 32 ∨ 9 ≤ c ∧ c ≤ 13)

/-- `rtrim`. -/
def rtrim (sv : List UInt8) : List UInt8 := sv.rdropWhile isSpace

/-- What is kept of the lines, and the queries sent. -/
structure Shell where
  query : List UInt8
  sent : List (List UInt8)
  deriving DecidableEq, Repr

namespace Shell

/-- One turn of the loop; `none` is `break`. -/
def turn (s : Shell) (lineRaw : List UInt8) : Option Shell :=
  let line := rtrim lineRaw
  if line = exitCommand then none
  else if line = [] then some s
  else if line.getLast? = some semicolon then some ⟨[], s.sent ++ [s.query ++ line.dropLast]⟩
  else some { s with query := s.query ++ line ++ [newline] }

/-- The loop, over the lines that are typed. -/
def main (s : Shell) : List (List UInt8) → Shell
  | [] => s
  | line :: lines =>
      match s.turn line with
      | none => s
      | some s => s.main lines

end Shell

/-- The queries of a session of the shell. -/
def queriesOf (lines : List (List UInt8)) : List (List UInt8) :=
  (Shell.main ⟨[], []⟩ lines).sent

/-! ## What a line may be -/

/-- A C string that was read up to its newline. -/
def Line (line : List UInt8) : Prop := newline ∉ line ∧ 0 ∉ line

/-- A line that is kept as it is, and does not end the query. -/
def Continues (line : List UInt8) : Prop :=
  rtrim line = line ∧ line ≠ [] ∧ line ≠ exitCommand ∧ line.getLast? ≠ some semicolon

/-- Every line of the query but the last can be kept. -/
def Typable (query : List UInt8) : Prop :=
  0 ∉ query ∧ ∀ line ∈ (query.splitOn newline).dropLast, Continues line

instance (line : List UInt8) : Decidable (Line line) := by unfold Line; infer_instance

instance (line : List UInt8) : Decidable (Continues line) := by unfold Continues; infer_instance

instance (query : List UInt8) : Decidable (Typable query) := by unfold Typable; infer_instance

/-- Lines with their newlines. -/
def kept (lines : List (List UInt8)) : List UInt8 := lines.flatMap fun line => line ++ [newline]

section Lines

variable {line last : List UInt8} {lines : List (List UInt8)} {s : Shell}

theorem kept_append (lines lines' : List (List UInt8)) :
    kept (lines ++ lines') = kept lines ++ kept lines' := List.flatMap_append

theorem rtrim_idempotent (line : List UInt8) : rtrim (rtrim line) = rtrim line :=
  List.rdropWhile_idempotent _ _

theorem rtrim_subset (line : List UInt8) : rtrim line ⊆ line :=
  (List.rdropWhile_prefix _ _).subset

/-- A line that ends a query is not trimmed. -/
theorem rtrim_semicolon (line : List UInt8) :
    rtrim (line ++ [semicolon]) = line ++ [semicolon] :=
  List.rdropWhile_concat_neg _ _ _ (by decide)

theorem kept_intercalate (lines : List (List UInt8)) (last : List UInt8) :
    kept lines ++ last = [newline].intercalate (lines ++ [last]) := by
  induction lines with
  | nil => simp [kept, List.intercalate]
  | cons line lines ih =>
      obtain ⟨next, rest, hrest⟩ : ∃ next rest, lines ++ [last] = next :: rest :=
        List.exists_cons_of_ne_nil (by simp)
      rw [List.cons_append, hrest, List.intercalate_cons_cons, ← hrest, ← ih]
      simp [kept]

/-- The lines of a query. -/
theorem kept_splitOn (hlines : ∀ line ∈ lines, newline ∉ line) (hlast : newline ∉ last) :
    (kept lines ++ last).splitOn newline = lines ++ [last] := by
  rw [kept_intercalate]
  refine List.splitOn_intercalate newline ?_ (by simp)
  intro line hline
  rcases List.mem_append.mp hline with hline | hline
  · exact hlines line hline
  · rw [List.mem_singleton.mp hline]
    exact hlast

/-- The lines of a C string. -/
theorem line_splitOn {text : List UInt8} (h : 0 ∉ text) :
    ∀ line ∈ text.splitOn newline, Line line := by
  induction text with
  | nil =>
      intro line hline
      rw [List.splitOn_nil] at hline
      rw [List.mem_singleton.mp hline]
      exact ⟨by simp, by simp⟩
  | cons c text ih =>
      obtain ⟨hc, htext⟩ : 0 ≠ c ∧ 0 ∉ text := by simpa using h
      intro line hline
      rw [List.splitOn_cons_eq_if_modifyHead] at hline
      split at hline
      · rcases List.mem_cons.mp hline with rfl | hline
        · exact ⟨by simp, by simp⟩
        · exact ih htext line hline
      · rename_i hne
        obtain ⟨first, rest, hsplit⟩ :=
          List.exists_cons_of_ne_nil (List.splitOn_ne_nil newline text)
        rw [hsplit, List.modifyHead_cons] at hline
        rw [hsplit] at ih
        rcases List.mem_cons.mp hline with rfl | hline
        · obtain ⟨hnewline, hzero⟩ := ih htext first List.mem_cons_self
          refine ⟨fun hmem => ?_, fun hmem => ?_⟩
          · rcases List.mem_cons.mp hmem with rfl | hmem
            · exact hne (beq_self_eq_true _)
            · exact hnewline hmem
          · rcases List.mem_cons.mp hmem with rfl | hmem
            · exact hc rfl
            · exact hzero hmem
        · exact ih htext line (List.mem_cons_of_mem _ hline)

end Lines

/-! ## What a shell sends -/

/-- The query so far is made of lines that were kept, and what was sent could be typed. -/
structure Shell.Ok (s : Shell) : Prop where
  query : ∃ lines, s.query = kept lines ∧ ∀ line ∈ lines, Continues line ∧ Line line
  sent : ∀ q ∈ s.sent, Typable q

section Turns

variable {line query : List UInt8} {lines : List (List UInt8)} {s s' : Shell}

theorem Line.rtrim (h : Line line) : Line (rtrim line) :=
  ⟨fun hmem => h.1 (rtrim_subset line hmem), fun hmem => h.2 (rtrim_subset line hmem)⟩

/-- Kept lines and a last one are a query that can be typed. -/
theorem typable_kept {last : List UInt8} (hlines : ∀ line ∈ lines, Continues line ∧ Line line)
    (hlast : Line last) : Typable (kept lines ++ last) := by
  refine ⟨fun hmem => ?_, ?_⟩
  · rcases List.mem_append.mp hmem with hmem | hmem
    · obtain ⟨line, hline, hmem⟩ := List.mem_flatMap.mp hmem
      rcases List.mem_append.mp hmem with hmem | hmem
      · exact (hlines line hline).2.2 hmem
      · exact absurd (List.mem_singleton.mp hmem) (by decide)
    · exact hlast.2 hmem
  · rw [kept_splitOn (fun line hline => (hlines line hline).2.1) hlast.1, List.dropLast_concat]
    exact fun line hline => (hlines line hline).1

theorem Shell.Ok.turn (h : s.Ok) (hline : Line line) (hturn : s.turn line = some s') : s'.Ok := by
  obtain ⟨⟨lines, hquery, hlines⟩, hsent⟩ := h
  unfold Shell.turn at hturn
  simp only at hturn
  split at hturn
  · cases hturn
  rename_i hexit
  split at hturn
  · cases hturn
    exact ⟨⟨lines, hquery, hlines⟩, hsent⟩
  rename_i hempty
  split at hturn
  · cases hturn
    refine ⟨⟨[], rfl, by simp⟩, fun q hq => ?_⟩
    rcases List.mem_append.mp hq with hq | hq
    · exact hsent q hq
    · rw [List.mem_singleton.mp hq, hquery]
      have hlast : Line (Bin.rtrim line).dropLast :=
        ⟨fun hmem => hline.rtrim.1 (List.dropLast_subset _ hmem),
          fun hmem => hline.rtrim.2 (List.dropLast_subset _ hmem)⟩
      exact typable_kept hlines hlast
  · rename_i hsemicolon
    cases hturn
    refine ⟨⟨lines ++ [Bin.rtrim line], ?_, ?_⟩, hsent⟩
    · rw [kept_append, hquery, List.append_assoc]
      simp [kept]
    · intro l hl
      rcases List.mem_append.mp hl with hl | hl
      · exact hlines l hl
      · rw [List.mem_singleton.mp hl]
        exact ⟨⟨rtrim_idempotent line, hempty, hexit, hsemicolon⟩, hline.rtrim⟩

theorem Shell.Ok.main (h : s.Ok) (hlines : ∀ line ∈ lines, Line line) : (s.main lines).Ok := by
  induction lines generalizing s with
  | nil => exact h
  | cons line lines ih =>
      obtain ⟨hline, hrest⟩ := List.forall_mem_cons.mp hlines
      unfold Shell.main
      split
      · exact h
      · rename_i s' hturn
        exact ih (h.turn hline hturn) hrest

/-- Lines that are kept. -/
theorem main_continues (more : List (List UInt8)) (hlines : ∀ line ∈ lines, Continues line) :
    s.main (lines ++ more) = Shell.main ⟨s.query ++ kept lines, s.sent⟩ more := by
  induction lines generalizing s with
  | nil => simp [kept]
  | cons line lines ih =>
      obtain ⟨⟨htrim, hempty, hexit, hsemicolon⟩, hrest⟩ := List.forall_mem_cons.mp hlines
      have hturn : s.turn line = some ⟨s.query ++ line ++ [newline], s.sent⟩ := by
        simp only [Shell.turn, htrim, if_neg hexit, if_neg hempty, if_neg hsemicolon]
      rw [List.cons_append, Shell.main, hturn]
      simp only
      rw [ih hrest]
      simp [kept]

/-- The line that ends a query. -/
theorem main_semicolon (more : List (List UInt8)) (last : List UInt8) :
    s.main ((last ++ [semicolon]) :: more) =
      Shell.main ⟨[], s.sent ++ [s.query ++ last]⟩ more := by
  have hexit : last ++ [semicolon] ≠ exitCommand := fun heq => by
    have hlast := congrArg List.getLast? heq
    rw [List.getLast?_concat] at hlast
    exact absurd hlast (by decide)
  have hturn : s.turn (last ++ [semicolon]) = some ⟨[], s.sent ++ [s.query ++ last]⟩ := by
    simp only [Shell.turn, rtrim_semicolon, if_neg hexit, List.getLast?_concat, if_true,
      List.dropLast_concat, if_neg (show last ++ [semicolon] ≠ [] by simp)]
  rw [Shell.main, hturn]

/-- A query that can be typed, as lines. -/
def linesOf (query : List UInt8) : List (List UInt8) :=
  (query.splitOn newline).dropLast ++
    [((query.splitOn newline).getLast (List.splitOn_ne_nil _ _)) ++ [semicolon]]

theorem main_linesOf (hquery : Typable query) (hkept : s.query = [])
    (more : List (List UInt8)) :
    s.main (linesOf query ++ more) = Shell.main ⟨[], s.sent ++ [query]⟩ more := by
  obtain ⟨_, hlines⟩ := hquery
  rw [linesOf, List.append_assoc, main_continues _ hlines, List.singleton_append, main_semicolon,
    hkept, List.nil_append, kept_intercalate, List.dropLast_concat_getLast,
    List.intercalate_splitOn]

theorem line_linesOf (hquery : Typable query) : ∀ line ∈ linesOf query, Line line := by
  have hsplit := line_splitOn hquery.1
  intro line hline
  rcases List.mem_append.mp hline with hline | hline
  · exact hsplit line (List.dropLast_subset _ hline)
  · rw [List.mem_singleton.mp hline]
    obtain ⟨hnewline, hzero⟩ := hsplit _ (List.getLast_mem (List.splitOn_ne_nil newline query))
    exact ⟨by simpa using ⟨hnewline, by decide⟩, by simpa using ⟨hzero, by decide⟩⟩

theorem queriesOf_linesOf (queries : List (List UInt8)) (h : ∀ q ∈ queries, Typable q) :
    queriesOf (queries.flatMap linesOf) = queries := by
  have hmain : ∀ sent, (Shell.main ⟨[], sent⟩ (queries.flatMap linesOf)).sent =
      sent ++ queries := by
    induction queries with
    | nil => simp [Shell.main]
    | cons q queries ih =>
        obtain ⟨hq, hqueries⟩ := List.forall_mem_cons.mp h
        intro sent
        rw [List.flatMap_cons, main_linesOf hq rfl, ih hqueries]
        simp
  exact hmain []

end Turns

/-- Which queries a shell can be made to send: those of which every line but the last is not
empty, has no spaces at its end, does not end with a semicolon and is not `exit`. -/
theorem queries_iff_typable (queries : List (List UInt8)) :
    (∃ lines, (∀ line ∈ lines, Line line) ∧ queriesOf lines = queries) ↔
      ∀ q ∈ queries, Typable q := by
  constructor
  · rintro ⟨lines, hlines, rfl⟩
    have hstart : Shell.Ok ⟨[], []⟩ := ⟨⟨[], rfl, by simp⟩, by simp⟩
    exact (hstart.main hlines).sent
  · intro h
    refine ⟨queries.flatMap linesOf, fun line hline => ?_, queriesOf_linesOf queries h⟩
    obtain ⟨q, hq, hline⟩ := List.mem_flatMap.mp hline
    exact line_linesOf (h q hq) line hline

-- a string literal of two lines, the first of which ends with a semicolon
example : ¬ Typable [39, 59, 10, 39] := by decide

/-! ## Nothing typed is lost -/

/-- What a line adds to the text of the queries. -/
def piece (line : List UInt8) : List UInt8 :=
  if line.getLast? = some semicolon then line else line ++ [newline]

/-- The lines up to `exit`, without their spaces, and without the empty ones. -/
def effective (lines : List (List UInt8)) : List (List UInt8) :=
  ((lines.map rtrim).takeWhile fun line => decide (line ≠ exitCommand)).filter
    fun line => decide (line ≠ [])

/-- The text of the queries, each with its semicolon, and of what is kept. -/
def Shell.text (s : Shell) : List UInt8 :=
  (s.sent.flatMap fun q => q ++ [semicolon]) ++ s.query

theorem main_text (s : Shell) (lines : List (List UInt8)) :
    (s.main lines).text = s.text ++ (effective lines).flatMap piece := by
  induction lines generalizing s with
  | nil => simp [Shell.main, effective]
  | cons line lines ih =>
      unfold Shell.main effective
      rw [List.map_cons, List.takeWhile_cons]
      by_cases hexit : rtrim line = exitCommand
      · have hturn : s.turn line = none := by simp only [Shell.turn, if_pos hexit]
        simp [hturn, hexit]
      by_cases hempty : rtrim line = []
      · have hturn : s.turn line = some s := by
          simp only [Shell.turn, if_neg hexit, if_pos hempty]
        rw [hturn, if_pos (by simpa using hexit), List.filter_cons_of_neg (by simpa using hempty)]
        exact ih s
      rw [if_pos (by simpa using hexit), List.filter_cons_of_pos (by simpa using hempty),
        List.flatMap_cons]
      by_cases hsemicolon : (rtrim line).getLast? = some semicolon
      · have hturn : s.turn line = some ⟨[], s.sent ++ [s.query ++ (rtrim line).dropLast]⟩ := by
          simp only [Shell.turn, if_neg hexit, if_neg hempty, if_pos hsemicolon]
        have hline : (rtrim line).dropLast ++ [semicolon] = rtrim line :=
          List.dropLast_append_getLast? _ hsemicolon
        rw [hturn]
        simp only
        rw [ih, piece, if_pos hsemicolon]
        simp only [Shell.text, List.flatMap_append, List.flatMap_cons, List.flatMap_nil,
          List.append_nil, List.append_assoc, hline, effective]
      · have hturn : s.turn line = some ⟨s.query ++ rtrim line ++ [newline], s.sent⟩ := by
          simp only [Shell.turn, if_neg hexit, if_neg hempty, if_neg hsemicolon]
        rw [hturn]
        simp only
        rw [ih, piece, if_neg hsemicolon]
        simp only [Shell.text, List.append_assoc, effective]

end Iic3413Db.Bin
