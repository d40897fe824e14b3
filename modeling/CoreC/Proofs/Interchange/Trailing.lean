import CoreC.Proofs.Interchange.RoundTrip

/-!
# What may stand behind a program

A text that is read as a program or as an expression may be followed by blanks, which change nothing, and by nothing else
(`Source.read_append`).

A value that is no number ends where its text ends, whatever stands behind it: only a number can go on. So the tokens of a
document in front of another text are those of its value, with the tokens of the other text behind them, and the machine
takes no token behind a complete value. Neither a program nor an expression is a number.
-/

namespace CoreC

namespace Json

instance (w : List Char) : Decidable (Blanks w) :=
  inferInstanceAs (Decidable (∀ c ∈ w, c = ' ' ∨ c = '\t' ∨ c = '\n' ∨ c = '\r'))

namespace Document

open Lexer Reader

variable {s t : List Char} {v v' : Json}

/-- A document of a value that is no number adds the tokens of the value to those of the text behind it. -/
theorem lex_append (h : Document s v) (hv : ∀ n, v ≠ .number n) :
    Token.lexOnto [] (s ++ t) = (Token.lexOnto [] t).map (tokensOnto · v) := by
  obtain ⟨hw₁, ht, hw₂⟩ := h
  rw [List.append_assoc, List.append_assoc, lex_blanks hw₁, lex_valueText v ht fun n hn => absurd hn (hv n), lex_blanks hw₂]

/-- Behind a complete value the machine takes no token. -/
theorem run_after_nil_eq_some_iff {tokens : List Token} : run (.after v []) tokens = some v' ↔ tokens = [] ∧ v = v' := by
  cases tokens with
  | nil => simp [run]
  | cons token tokens => simp [run, step]

/-- A document of a value that is no number stays a document exactly if blanks are put behind it, and it stays one of the
same value. -/
theorem append_iff (h : Document s v) (hv : ∀ n, v ≠ .number n) : Document (s ++ t) v' ↔ Blanks t ∧ v = v' := by
  rw [← lex_eq_tokens_iff, lex_append h hv, Option.map_eq_some_iff, ← lex_eq_nil_iff]
  constructor
  · rintro ⟨tokens, ht, htokens⟩
    have hread := (Machine.ofTokens?_eq_some_iff _ v').2 htokens
    rw [ofTokens?, Machine.run_tokensOnto, run_after_nil_eq_some_iff] at hread
    obtain ⟨rfl, rfl⟩ := hread
    exact ⟨ht, rfl⟩
  · rintro ⟨ht, rfl⟩
    exact ⟨[], ht, rfl⟩

end Document

end Json

namespace TrailingAux

/-- No number represents a program. -/
theorem program_not_representedBy_number (p : Program) (n : Json.Number) : ¬p.RepresentedBy (.number n) := by
  rintro ⟨hparts, -, -⟩
  cases hparts

/-- No number represents an expression: each is an object with a tag. -/
theorem expr_not_representedBy_number (e : Expr) (n : Json.Number) : ¬e.RepresentedBy (.number n) := by
  have htagged : ∀ tag payload, ¬Json.Tagged (.number n) tag payload := by
    intro tag payload h
    cases h
  intro h
  cases h <;> exact htagged _ _ ‹_›

/-- What is read from documents of values that are no numbers is read with blanks behind it as without, and with anything
else it is not read. -/
theorem parse_append {α : Type} {parse : String → Option α} {Represents : α → Json → Prop}
    (hparse : ∀ text a, parse text = some a ↔ ∃ j, Json.Document text.toList j ∧ Represents a j)
    (hnumber : ∀ a n, ¬Represents a (.number n)) {s : String} {a : α} (hs : parse s = some a) (t : String) :
    parse (s ++ t) = if Json.Blanks t.toList then some a else none := by
  obtain ⟨j, hdocument, hj⟩ := (hparse s a).1 hs
  have hnumber : ∀ n, j ≠ .number n := by
    rintro n rfl
    exact hnumber a n hj
  have happend : ∀ j', Json.Document (s ++ t).toList j' ↔ Json.Blanks t.toList ∧ j = j' := by
    intro j'
    rw [String.toList_append]
    exact hdocument.append_iff hnumber
  split
  · rename_i ht
    exact (hparse (s ++ t) a).2 ⟨j, (happend j).2 ⟨ht, rfl⟩, hj⟩
  · rename_i ht
    rw [Option.eq_none_iff_forall_ne_some]
    intro b hb
    obtain ⟨j', hdocument', -⟩ := (hparse (s ++ t) b).1 hb
    exact ht ((happend j').1 hdocument').1

end TrailingAux

open TrailingAux

namespace Source

/-- Nothing but blanks may follow what is read. A text that is read as a program, or as an expression, is read as the same one
with blanks behind it; with any other text behind it, it is refused as malformed, whatever the words for the reason are. -/
theorem read_append (reason : String → String) :
    (∀ (s t : String) (p : Program), readProgram reason s = .ok p →
      readProgram reason (s ++ t) =
        if Json.Blanks t.toList then .ok p else .error (.malformed ("invalid program: " ++ reason (s ++ t)))) ∧
    ∀ (s t : String) (e : Expr), readExpr reason s = .ok e →
      readExpr reason (s ++ t) =
        if Json.Blanks t.toList then .ok e else .error (.malformed ("invalid expression: " ++ reason (s ++ t))) := by
  constructor
  · intro s t p hs
    have happend := parse_append (fun _ _ => Program.parse?_eq_some_iff) program_not_representedBy_number
      (readProgram_eq_ok_iff.1 hs) t
    by_cases ht : Json.Blanks t.toList
    · rw [readProgram, happend, if_pos ht, if_pos ht]
    · rw [readProgram, happend, if_neg ht, if_neg ht]
  · intro s t e hs
    have happend := parse_append (fun _ _ => Expr.parse?_eq_some_iff) expr_not_representedBy_number
      (readExpr_eq_ok_iff.1 hs) t
    by_cases ht : Json.Blanks t.toList
    · rw [readExpr, happend, if_pos ht, if_pos ht]
    · rw [readExpr, happend, if_neg ht, if_neg ht]

end Source

namespace TrailingAux

/-- A program with a structure and a function. -/
def small : Program where
  structs := [⟨⟨"s"⟩, [⟨.int, ⟨"n"⟩⟩]⟩]
  funs := [{ returnType := .void, name := ⟨"f"⟩, params := [], body := .returnVoid }]

/-- Words for what is wrong with a text. -/
def trailing (_ : String) : String := "trailing characters"

end TrailingAux

/-- Blanks behind the text of a program change nothing; a bracket that closes nothing is refused, and so is a second value behind
the text of an expression. -/
theorem Source.read_append_second :
    readProgram trailing (small.print ++ " \t\r\n") = .ok small ∧
      readProgram trailing (small.print ++ " ]") = .error (.malformed "invalid program: trailing characters") ∧
      readExpr trailing ((Expr.int 1).print ++ " ") = .ok (.int 1) ∧
      readExpr trailing ((Expr.int 1).print ++ " \x7b\x7d") =
        .error (.malformed "invalid expression: trailing characters") := by
  obtain ⟨hprogram, hexpr⟩ := Source.read_append trailing
  have hsmall : readProgram trailing small.print = .ok small := readProgram_eq_ok_iff.2 small.parse?_print
  have hone : readExpr trailing (Expr.int 1).print = .ok (.int 1) := readExpr_eq_ok_iff.2 (Expr.int 1).parse?_print
  refine ⟨?_, ?_, ?_, ?_⟩
  · rw [hprogram small.print _ _ hsmall, if_pos (by simp [Json.Blanks])]
  · rw [hprogram small.print _ _ hsmall, if_neg (by simp [Json.Blanks])]
    rfl
  · rw [hexpr (Expr.int 1).print _ _ hone, if_pos (by simp [Json.Blanks])]
  · rw [hexpr (Expr.int 1).print _ _ hone, if_neg (by simp [Json.Blanks])]
    rfl

end CoreC
