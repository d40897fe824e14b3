import CoreC.Proofs.Json.Scanner

/-!
# Cutting a text into tokens

What the cutting of a text does at its front: blanks are dropped, and a token of the grammar becomes a token of the list
(`Lexer.lex_blanks`, `Lexer.lex_token`). The other way round, a list that begins with a token comes from a text that begins
with its spelling, behind blanks (`Lexer.eq_token_of_lex`).
-/

namespace CoreC.Json

/-- How a token is spelled: numbers and strings by the grammar, all other tokens in one way. -/
def TokenText (t : List Char) : Token → Prop
  | .number n => NumberText t n
  | .string ps => StringText t ps
  | token => t = token.chars

namespace Lexer

open Scanner

/-! ## One token -/

/-- A number begins with a digit or with a minus. -/
theorem head_numberText {t : List Char} {n : Number} (h : NumberText t n) :
    ∃ c r, t = c :: r ∧ (c.isDigit = true ∨ c = '-') := by
  have hwhole : ∀ (negative : Bool) {w : List Char} (r : List Char), Whole w →
      ∃ c r', signText negative ++ (w ++ r) = c :: r' ∧ (c.isDigit = true ∨ c = '-') := by
    intro negative w r hw
    cases negative with
    | true => exact ⟨'-', _, rfl, Or.inr rfl⟩
    | false =>
      cases hw with
      | zero => exact ⟨'0', _, rfl, Or.inl rfl⟩
      | digits _ hd => exact ⟨_, _, rfl, Or.inl (hd.2 _ List.mem_cons_self)⟩
  cases h with
  | integer negative hw =>
    have h := hwhole negative [] hw
    rw [List.append_nil] at h
    exact h
  | @decimal negative w f e hw hf he hne =>
    have h := hwhole negative (f ++ e) hw
    rw [← List.append_assoc, ← List.append_assoc] at h
    exact h

/-- Nothing else than a number begins with a digit or with a minus. -/
theorem next?_of_head {c : Char} (r : List Char) (hc : c.isDigit = true ∨ c = '-') :
    Token.next? (c :: r) = (scanNumber (c :: r)).map fun (n, rest) => (.number n, rest) := by
  unfold Token.next?
  split
  case h_11 => rfl
  all_goals
    rename_i heq
    cases heq
    exact absurd hc (by decide)

/-- A token of the grammar is cut off as a whole, a number if it cannot go on. -/
theorem next?_append {t rest : List Char} {token : Token} (h : TokenText t token)
    (hr : ∀ n, token = .number n → Stops rest) : Token.next? (t ++ rest) = some (token, rest) := by
  cases token with
  | number n =>
    obtain ⟨c, r, rfl, hc⟩ := head_numberText h
    rw [List.cons_append, next?_of_head _ hc, ← List.cons_append, scanNumber_append h (hr n rfl)]
    rfl
  | string ps =>
    obtain ⟨hps⟩ := h
    have hs := scanString_of_piecesText hps [] rest
    rw [List.cons_append, List.append_assoc]
    show (scanString [] _).map _ = _
    rw [List.singleton_append, hs]
    rfl
  | bool b =>
    cases b with
    | true => cases h; rfl
    | false => cases h; rfl
  | braceOpen | braceClose | bracketOpen | bracketClose | comma | colon | null => cases h; rfl

/-- What is cut off the front of a text is a token of the grammar. -/
theorem tokenText_of_next? {text rest : List Char} {token : Token} (h : Token.next? text = some (token, rest)) :
    ∃ t, text = t ++ rest ∧ TokenText t token := by
  unfold Token.next? at h
  split at h
  case h_10 =>
    obtain ⟨⟨ps, r⟩, hs, he⟩ := Option.map_eq_some_iff.1 h
    cases he
    obtain ⟨t, qs, rfl, ht, rfl⟩ := piecesText_of_scanString hs
    exact ⟨'"' :: (t ++ ['"']), by simp, .mk ht⟩
  case h_11 =>
    obtain ⟨⟨n, r⟩, hn, he⟩ := Option.map_eq_some_iff.1 h
    cases he
    exact numberText_of_scanNumber hn
  all_goals
    cases h
    exact ⟨_, rfl, rfl⟩

/-- A token begins with a character that is no blank. -/
theorem head_tokenText {t : List Char} {token : Token} (h : TokenText t token) :
    ∃ c r, t = c :: r ∧ isBlank c = false := by
  cases token with
  | number n =>
    obtain ⟨c, r, rfl, hc⟩ := head_numberText h
    refine ⟨c, r, rfl, ?_⟩
    cases hb : isBlank c with
    | false => rfl
    | true =>
      simp only [isBlank, Bool.or_eq_true, decide_eq_true_eq] at hb
      rcases hb with ((rfl | rfl) | rfl) | rfl <;> exact absurd hc (by decide)
  | string ps =>
    obtain ⟨_⟩ := h
    exact ⟨_, _, rfl, rfl⟩
  | bool b =>
    cases b with
    | true => exact ⟨_, _, h, rfl⟩
    | false => exact ⟨_, _, h, rfl⟩
  | braceOpen | braceClose | bracketOpen | bracketClose | comma | colon | null => exact ⟨_, _, h, rfl⟩

/-! ## The whole text -/

/-- There are four blanks. -/
theorem isBlank_eq_true_iff {c : Char} : isBlank c = true ↔ c = ' ' ∨ c = '\t' ∨ c = '\n' ∨ c = '\r' := by
  simp [isBlank, or_assoc]

/-- Blanks in front of a text are dropped with those the text begins with. -/
theorem dropWhile_blanks_append {w : List Char} (hw : Blanks w) (text : List Char) :
    (w ++ text).dropWhile isBlank = text.dropWhile isBlank := by
  induction w with
  | nil => rfl
  | cons c w ih =>
    have hc : isBlank c = true := isBlank_eq_true_iff.2 (hw c List.mem_cons_self)
    rw [List.cons_append, List.dropWhile_cons_of_pos hc]
    exact ih fun d hd => hw d (List.mem_cons_of_mem _ hd)

theorem blanks_takeWhile (text : List Char) : Blanks (text.takeWhile isBlank) := by
  intro c hc
  exact isBlank_eq_true_iff.1 (List.all_eq_true.1 List.all_takeWhile c hc)

theorem lexOnto_eq_bind (read : List Token) (text : List Char) :
    Token.lexOnto read text =
      if (text.dropWhile isBlank).isEmpty then some read.reverse
      else (Token.next? (text.dropWhile isBlank)).bind fun (t, rest) => Token.lexOnto (t :: read) rest := by
  rw [Token.lexOnto]
  split
  · rfl
  · split <;> simp [*]

/-- The tokens already cut off stand in front of those still to come. -/
theorem lexOnto_eq_map (read : List Token) (text : List Char) :
    Token.lexOnto read text = (Token.lexOnto [] text).map (read.reverse ++ ·) := by
  -- Both sides take the same token off, so the claim is needed of the shorter text for two lists of tokens at once.
  induction hlen : text.length using Nat.strongRecOn generalizing read text with
  | ind n ih =>
    subst hlen
    rw [lexOnto_eq_bind read, lexOnto_eq_bind []]
    split
    · simp
    · cases hn : Token.next? (text.dropWhile isBlank) with
      | none => rfl
      | some cut =>
        obtain ⟨t, rest⟩ := cut
        have hlt : rest.length < text.length := by
          have h₁ := Token.length_lt_of_next? hn
          have h₂ := (List.dropWhile_sublist (l := text) isBlank).length_le
          omega
        simp only [Option.bind_some]
        rw [ih _ hlt (t :: read) rest rfl, ih _ hlt [t] rest rfl]
        simp [Function.comp_def]

/-- Blanks at the front of a text are dropped. -/
theorem lex_blanks {w : List Char} (hw : Blanks w) (text : List Char) :
    Token.lexOnto [] (w ++ text) = Token.lexOnto [] text := by
  rw [lexOnto_eq_bind [] (w ++ text), lexOnto_eq_bind [] text, dropWhile_blanks_append hw]

/-- A text of blanks has no tokens. -/
theorem lex_eq_nil_iff {text : List Char} : Token.lexOnto [] text = some [] ↔ Blanks text := by
  refine ⟨fun h => ?_, fun h => ?_⟩
  · rw [lexOnto_eq_bind] at h
    split at h
    · rename_i hb
      have ht := List.takeWhile_append_dropWhile (p := isBlank) (l := text)
      rw [List.isEmpty_iff.1 hb, List.append_nil] at ht
      exact ht ▸ blanks_takeWhile text
    · obtain ⟨⟨t, rest⟩, -, h⟩ := Option.bind_eq_some_iff.1 h
      simp only [lexOnto_eq_map [t]] at h
      simp at h
  · have := lex_blanks h []
    rw [List.append_nil] at this
    rw [this, lexOnto_eq_bind]
    rfl

/-- A token at the front of a text, a number if it cannot go on, becomes the first token of the list. -/
theorem lex_token {t rest : List Char} {token : Token} (h : TokenText t token)
    (hr : ∀ n, token = .number n → Stops rest) :
    Token.lexOnto [] (t ++ rest) = (Token.lexOnto [] rest).map (token :: ·) := by
  obtain ⟨c, r, rfl, hc⟩ := head_tokenText h
  have hdrop : (c :: r ++ rest).dropWhile isBlank = c :: r ++ rest := by
    rw [List.cons_append, List.dropWhile_cons_of_neg (by simp [hc])]
  rw [lexOnto_eq_bind, hdrop, next?_append h hr, if_neg (by simp), Option.bind_some]
  exact lexOnto_eq_map [token] rest

/-- A list that begins with a token comes from a text that begins with it behind blanks. -/
theorem eq_token_of_lex {text : List Char} {token : Token} {tokens : List Token}
    (h : Token.lexOnto [] text = some (token :: tokens)) :
    ∃ w t rest, text = w ++ (t ++ rest) ∧ Blanks w ∧ TokenText t token ∧ Token.lexOnto [] rest = some tokens := by
  rw [lexOnto_eq_bind] at h
  split at h
  · cases h
  · obtain ⟨⟨t', rest⟩, hn, h⟩ := Option.bind_eq_some_iff.1 h
    simp only [lexOnto_eq_map [t'], Option.map_eq_some_iff, List.reverse_singleton, List.singleton_append,
      List.cons.injEq] at h
    obtain ⟨ts, hts, rfl, rfl⟩ := h
    obtain ⟨t, ht, htoken⟩ := tokenText_of_next? hn
    refine ⟨text.takeWhile isBlank, t, rest, ?_, blanks_takeWhile text, htoken, hts⟩
    rw [← ht, List.takeWhile_append_dropWhile]

end Lexer

end CoreC.Json
