import CoreC.Proofs.Json.Lexer
import CoreC.Proofs.Json.Machine

/-!
# Reading a document

A text is read as a value exactly if the grammar derives it as one: `Json.parse?_eq_some_iff`. The text is cut into the
tokens of the value if and only if it is that value's text with blanks around it, which is shown along the value in both
directions; the rest is what the machine makes of the tokens.
-/

namespace CoreC.Json

namespace Document

open Scanner Lexer

/-! ## Tokens of containers behind their first token -/

/-- The tokens of the elements of an array, with the closing bracket, in front of others. -/
def elementsTokens (rest : List Token) : List Json → List Token
  | [] => .bracketClose :: rest
  | e :: es => tokensOnto (elementsOnto rest es) e

/-- The tokens of the members of an object, with the closing brace, in front of others. -/
def membersTokens (rest : List Token) : List (List Piece × Json) → List Token
  | [] => .braceClose :: rest
  | (k, v) :: ms => .string k :: .colon :: tokensOnto (membersOnto rest ms) v

/-- The tokens of an array are a bracket and those of its elements up to the other one. -/
theorem tokensOnto_array (rest : List Token) (es : List Json) :
    tokensOnto rest (.array es) = .bracketOpen :: elementsTokens rest es := by
  cases es <;> rw [tokensOnto] <;> rfl

/-- The tokens of an object are a brace and those of its members up to the other one. -/
theorem tokensOnto_object (rest : List Token) (ms : List (List Piece × Json)) :
    tokensOnto rest (.object ms) = .braceOpen :: membersTokens rest ms := by
  cases ms <;> rw [tokensOnto] <;> rfl

/-- An element that is not the last one is followed by a comma. -/
theorem elementsTokens_cons_cons (rest : List Token) (e e' : Json) (es : List Json) :
    elementsTokens rest (e :: e' :: es) = tokensOnto (.comma :: elementsTokens rest (e' :: es)) e := by
  rw [elementsTokens, elementsOnto]
  rfl

/-- A member that is not the last one is followed by a comma. -/
theorem membersTokens_cons_cons (rest : List Token) (k : List Piece) (v : Json) (m : List Piece × Json)
    (ms : List (List Piece × Json)) :
    membersTokens rest ((k, v) :: m :: ms) =
      .string k :: .colon :: tokensOnto (.comma :: membersTokens rest (m :: ms)) v := by
  rw [membersTokens, membersOnto]
  rfl

/-! ## Where a number cannot go on -/

/-- A number does not go on at the end of a text, nor at any of the marks that may follow a value. -/
theorem stops_nil : Stops [] := by
  intro c hc
  cases hc

theorem stops_comma (rest : List Char) : Stops (',' :: rest) := by
  intro c hc
  cases hc
  decide

theorem stops_bracketClose (rest : List Char) : Stops (']' :: rest) := by
  intro c hc
  cases hc
  decide

theorem stops_braceClose (rest : List Char) : Stops ('\x7d' :: rest) := by
  intro c hc
  cases hc
  decide

/-- A number does not go on behind blanks either. -/
theorem stops_blanks_append {w rest : List Char} (hw : Blanks w) (hr : Stops rest) : Stops (w ++ rest) := by
  cases w with
  | nil => exact hr
  | cons b w =>
    intro c hc
    cases hc
    rcases hw b List.mem_cons_self with rfl | rfl | rfl | rfl <;> decide

/-! ## From the grammar to tokens -/

/-- A token that is no number is cut off whatever stands behind it. -/
theorem lex_mark (token : Token) {t : List Char} (ht : TokenText t token) (hn : ∀ n, token ≠ .number n)
    (rest : List Char) : Token.lexOnto [] (t ++ rest) = (Token.lexOnto [] rest).map (token :: ·) :=
  lex_token ht fun n h => absurd h (hn n)

/-- A token of one character is cut off whatever stands behind it. -/
theorem lex_char (token : Token) (c : Char) (ht : TokenText [c] token) (hn : ∀ n, token ≠ .number n)
    (rest : List Char) : Token.lexOnto [] (c :: rest) = (Token.lexOnto [] rest).map (token :: ·) :=
  lex_mark token ht hn rest

mutual

/-- The text of a value in front of another text, of a number if it cannot go on there, adds the tokens of the value. -/
theorem lex_valueText : ∀ (v : Json) {t : List Char} (_ : ValueText t v) {rest : List Char}
    (_ : ∀ n, v = .number n → Stops rest),
    Token.lexOnto [] (t ++ rest) = (Token.lexOnto [] rest).map (tokensOnto · v)
  | .null, _, h, rest, _ => by
    cases h
    simp only [tokensOnto]
    exact lex_mark .null rfl nofun rest
  | .bool b, _, h, rest, _ => by
    simp only [tokensOnto]
    cases h with
    | true => exact lex_mark (.bool true) rfl nofun rest
    | false => exact lex_mark (.bool false) rfl nofun rest
  | .number n, _, h, rest, hr => by
    simp only [tokensOnto]
    cases h with | number h => exact lex_token (show TokenText _ (.number n) from h) fun _ _ => hr n rfl
  | .string ps, _, h, rest, _ => by
    simp only [tokensOnto]
    cases h with | string h => exact lex_mark (.string ps) h nofun rest
  | .array es, _, h, rest, _ => by
    simp only [tokensOnto_array]
    cases h with
    | emptyArray hw =>
      rw [List.cons_append, List.append_assoc, List.singleton_append, lex_char .bracketOpen '[' rfl nofun]
      rw [lex_blanks hw, lex_char .bracketClose ']' rfl nofun, Option.map_map]
      rfl
    | array hes =>
      rw [List.cons_append, List.append_assoc, List.singleton_append, lex_char .bracketOpen '[' rfl nofun]
      rw [lex_elementsText es hes rest, Option.map_map]
      rfl
  | .object ms, _, h, rest, _ => by
    simp only [tokensOnto_object]
    cases h with
    | emptyObject hw =>
      rw [List.cons_append, List.append_assoc, List.singleton_append, lex_char .braceOpen '\x7b' rfl nofun]
      rw [lex_blanks hw, lex_char .braceClose '\x7d' rfl nofun, Option.map_map]
      rfl
    | object hms =>
      rw [List.cons_append, List.append_assoc, List.singleton_append, lex_char .braceOpen '\x7b' rfl nofun]
      rw [lex_membersText ms hms rest, Option.map_map]
      rfl

/-- The text of elements and the bracket behind it add the tokens of the elements. -/
theorem lex_elementsText : ∀ (es : List Json) {t : List Char} (_ : ElementsText t es) (rest : List Char),
    Token.lexOnto [] (t ++ ']' :: rest) = (Token.lexOnto [] rest).map (elementsTokens · es)
  | [], _, h, _ => nomatch h
  | [e], _, h, rest => by
    cases h with
    | one hw₁ ht hw₂ =>
      have hstops := stops_blanks_append hw₂ (stops_bracketClose rest)
      simp only [List.append_assoc]
      rw [lex_blanks hw₁, lex_valueText e ht fun _ _ => hstops, lex_blanks hw₂, lex_char .bracketClose ']' rfl nofun]
      rw [Option.map_map]
      rfl
    | more _ _ _ h => cases h
  | e :: e' :: es, _, h, rest => by
    cases h with
    | @more w₁ t w₂ r _ _ hw₁ ht hw₂ hr =>
      have hstops := stops_blanks_append hw₂ (stops_comma (r ++ ']' :: rest))
      simp only [List.append_assoc, List.cons_append, elementsTokens_cons_cons]
      rw [lex_blanks hw₁, lex_valueText e ht fun _ _ => hstops, lex_blanks hw₂, lex_char .comma ',' rfl nofun]
      rw [lex_elementsText (e' :: es) hr rest, Option.map_map, Option.map_map]
      rfl

/-- The text of members and the brace behind it add the tokens of the members. -/
theorem lex_membersText : ∀ (ms : List (List Piece × Json)) {t : List Char} (_ : MembersText t ms)
    (rest : List Char), Token.lexOnto [] (t ++ '\x7d' :: rest) = (Token.lexOnto [] rest).map (membersTokens · ms)
  | [], _, h, _ => nomatch h
  | [(k, v)], _, h, rest => by
    cases h with
    | one hw₁ hs hw₂ hw₃ ht hw₄ =>
      have hstops := stops_blanks_append hw₄ (stops_braceClose rest)
      simp only [List.append_assoc, List.cons_append]
      rw [lex_blanks hw₁, lex_mark (.string k) hs nofun, lex_blanks hw₂, lex_char .colon ':' rfl nofun]
      rw [lex_blanks hw₃, lex_valueText v ht fun _ _ => hstops, lex_blanks hw₄, lex_char .braceClose '\x7d' rfl nofun]
      rw [Option.map_map, Option.map_map, Option.map_map]
      rfl
    | more _ _ _ _ _ _ h => cases h
  | (k, v) :: m :: ms, _, h, rest => by
    cases h with
    | @more w₁ s w₂ w₃ t w₄ r _ _ _ hw₁ hs hw₂ hw₃ ht hw₄ hr =>
      have hstops := stops_blanks_append hw₄ (stops_comma (r ++ '\x7d' :: rest))
      simp only [List.append_assoc, List.cons_append, membersTokens_cons_cons]
      rw [lex_blanks hw₁, lex_mark (.string k) hs nofun, lex_blanks hw₂, lex_char .colon ':' rfl nofun]
      rw [lex_blanks hw₃, lex_valueText v ht fun _ _ => hstops, lex_blanks hw₄, lex_char .comma ',' rfl nofun]
      rw [lex_membersText (m :: ms) hr rest]
      rw [Option.map_map, Option.map_map, Option.map_map, Option.map_map]
      rfl

end

/-! ## From tokens to the grammar -/

/-- A list that begins with a mark comes from a text that begins with its character, behind blanks. -/
theorem eq_char_of_lex (token : Token) (c : Char) (ht : ∀ t, TokenText t token → t = [c]) {text : List Char}
    {tokens : List Token} (h : Token.lexOnto [] text = some (token :: tokens)) :
    ∃ w rest, text = w ++ c :: rest ∧ Blanks w ∧ Token.lexOnto [] rest = some tokens := by
  obtain ⟨w, t, rest, rfl, hw, htoken, hrest⟩ := eq_token_of_lex h
  obtain rfl := ht t htoken
  exact ⟨w, rest, rfl, hw, hrest⟩

mutual

/-- A list that begins with the tokens of a value comes from a text that begins with a text of the value. -/
theorem valueText_of_lex : ∀ (v : Json) {text : List Char} {tokens : List Token}
    (_ : Token.lexOnto [] text = some (tokensOnto tokens v)),
    ∃ w t rest, text = w ++ (t ++ rest) ∧ Blanks w ∧ ValueText t v ∧ Token.lexOnto [] rest = some tokens
  | .null, text, tokens, h => by
    rw [tokensOnto] at h
    obtain ⟨w, t, rest, rfl, hw, ht, hrest⟩ := eq_token_of_lex h
    cases ht
    exact ⟨w, _, rest, rfl, hw, .null, hrest⟩
  | .bool b, text, tokens, h => by
    rw [tokensOnto] at h
    obtain ⟨w, t, rest, rfl, hw, ht, hrest⟩ := eq_token_of_lex h
    cases b with
    | true => cases ht; exact ⟨w, _, rest, rfl, hw, .true, hrest⟩
    | false => cases ht; exact ⟨w, _, rest, rfl, hw, .false, hrest⟩
  | .number n, text, tokens, h => by
    rw [tokensOnto] at h
    obtain ⟨w, t, rest, rfl, hw, ht, hrest⟩ := eq_token_of_lex h
    exact ⟨w, t, rest, rfl, hw, .number ht, hrest⟩
  | .string ps, text, tokens, h => by
    rw [tokensOnto] at h
    obtain ⟨w, t, rest, rfl, hw, ht, hrest⟩ := eq_token_of_lex h
    exact ⟨w, t, rest, rfl, hw, .string ht, hrest⟩
  | .array es, text, tokens, h => by
    rw [tokensOnto_array] at h
    obtain ⟨w, r, rfl, hw, hr⟩ := eq_char_of_lex .bracketOpen '[' (fun _ h => h) h
    cases es with
    | nil =>
      obtain ⟨w', rest, rfl, hw', hrest⟩ := eq_char_of_lex .bracketClose ']' (fun _ h => h) hr
      exact ⟨w, _, rest, by simp, hw, .emptyArray hw', hrest⟩
    | cons e es =>
      obtain ⟨t, rest, rfl, ht, hrest⟩ := elementsText_of_lex (e :: es) (List.cons_ne_nil e es) hr
      exact ⟨w, _, rest, by simp, hw, .array ht, hrest⟩
  | .object ms, text, tokens, h => by
    rw [tokensOnto_object] at h
    obtain ⟨w, r, rfl, hw, hr⟩ := eq_char_of_lex .braceOpen '\x7b' (fun _ h => h) h
    cases ms with
    | nil =>
      obtain ⟨w', rest, rfl, hw', hrest⟩ := eq_char_of_lex .braceClose '\x7d' (fun _ h => h) hr
      exact ⟨w, _, rest, by simp, hw, .emptyObject hw', hrest⟩
    | cons m ms =>
      obtain ⟨t, rest, rfl, ht, hrest⟩ := membersText_of_lex (m :: ms) (List.cons_ne_nil m ms) hr
      exact ⟨w, _, rest, by simp, hw, .object ht, hrest⟩

/-- A list that begins with the tokens of elements comes from a text that begins with a text of the elements. -/
theorem elementsText_of_lex : ∀ (es : List Json) (_ : es ≠ []) {text : List Char} {tokens : List Token}
    (_ : Token.lexOnto [] text = some (elementsTokens tokens es)),
    ∃ t rest, text = t ++ ']' :: rest ∧ ElementsText t es ∧ Token.lexOnto [] rest = some tokens
  | [], hne, _, _, _ => absurd rfl hne
  | [e], _, text, tokens, h => by
    obtain ⟨w, t, r, rfl, hw, ht, hr⟩ := valueText_of_lex e (by rw [h, elementsTokens])
    obtain ⟨w', rest, rfl, hw', hrest⟩ :=
      eq_char_of_lex .bracketClose ']' (fun _ h => h) (by rw [hr, elementsOnto])
    exact ⟨_, rest, by simp, .one hw ht hw', hrest⟩
  | e :: e' :: es, _, text, tokens, h => by
    rw [elementsTokens_cons_cons] at h
    obtain ⟨w, t, r, rfl, hw, ht, hr⟩ := valueText_of_lex e h
    obtain ⟨w', r', rfl, hw', hr'⟩ := eq_char_of_lex .comma ',' (fun _ h => h) hr
    obtain ⟨ts, rest, rfl, hts, hrest⟩ := elementsText_of_lex (e' :: es) (List.cons_ne_nil e' es) hr'
    exact ⟨_, rest, by simp, .more hw ht hw' hts, hrest⟩

/-- A list that begins with the tokens of members comes from a text that begins with a text of the members. -/
theorem membersText_of_lex : ∀ (ms : List (List Piece × Json)) (_ : ms ≠ []) {text : List Char}
    {tokens : List Token} (_ : Token.lexOnto [] text = some (membersTokens tokens ms)),
    ∃ t rest, text = t ++ '\x7d' :: rest ∧ MembersText t ms ∧ Token.lexOnto [] rest = some tokens
  | [], hne, _, _, _ => absurd rfl hne
  | [(k, v)], _, text, tokens, h => by
    rw [membersTokens] at h
    obtain ⟨w₁, s, r₁, rfl, hw₁, hs, hr₁⟩ := eq_token_of_lex h
    obtain ⟨w₂, r₂, rfl, hw₂, hr₂⟩ := eq_char_of_lex .colon ':' (fun _ h => h) hr₁
    obtain ⟨w₃, t, r₃, rfl, hw₃, ht, hr₃⟩ := valueText_of_lex v hr₂
    obtain ⟨w₄, rest, rfl, hw₄, hrest⟩ :=
      eq_char_of_lex .braceClose '\x7d' (fun _ h => h) (by rw [hr₃, membersOnto])
    exact ⟨_, rest, by simp, .one hw₁ hs hw₂ hw₃ ht hw₄, hrest⟩
  | (k, v) :: m :: ms, _, text, tokens, h => by
    rw [membersTokens_cons_cons] at h
    obtain ⟨w₁, s, r₁, rfl, hw₁, hs, hr₁⟩ := eq_token_of_lex h
    obtain ⟨w₂, r₂, rfl, hw₂, hr₂⟩ := eq_char_of_lex .colon ':' (fun _ h => h) hr₁
    obtain ⟨w₃, t, r₃, rfl, hw₃, ht, hr₃⟩ := valueText_of_lex v hr₂
    obtain ⟨w₄, r₄, rfl, hw₄, hr₄⟩ := eq_char_of_lex .comma ',' (fun _ h => h) hr₃
    obtain ⟨ts, rest, rfl, hts, hrest⟩ := membersText_of_lex (m :: ms) (List.cons_ne_nil m ms) hr₄
    exact ⟨_, rest, by simp, .more hw₁ hs hw₂ hw₃ ht hw₄ hts, hrest⟩

end

/-- A text is cut into the tokens of a value exactly if it is a document of the value. -/
theorem lex_eq_tokens_iff (text : List Char) (v : Json) :
    Token.lexOnto [] text = some v.tokens ↔ Document text v := by
  refine ⟨fun h => ?_, fun h => ?_⟩
  · obtain ⟨w₁, t, w₂, rfl, hw₁, ht, hw₂⟩ := valueText_of_lex v h
    exact .mk hw₁ ht (lex_eq_nil_iff.1 hw₂)
  · obtain ⟨hw₁, ht, hw₂⟩ := h
    have hstops := stops_blanks_append hw₂ stops_nil
    rw [List.append_nil] at hstops
    rw [lex_blanks hw₁, lex_valueText v ht fun _ _ => hstops, lex_eq_nil_iff.2 hw₂]
    rfl

end Document

/-- Reading a text gives a value exactly if the text is a document of the value. -/
theorem parse?_eq_some_iff (text : String) (v : Json) : Json.parse? text = some v ↔ Document text.toList v := by
  rw [← Document.lex_eq_tokens_iff]
  show (Token.lexOnto [] text.toList).bind ofTokens? = some v ↔ _
  rw [Option.bind_eq_some_iff]
  refine ⟨fun h => ?_, fun h => ?_⟩
  · obtain ⟨tokens, hlex, hread⟩ := h
    rw [hlex, (Machine.ofTokens?_eq_some_iff tokens v).1 hread]
  · exact ⟨v.tokens, h, (Machine.ofTokens?_eq_some_iff v.tokens v).2 rfl⟩

end CoreC.Json
