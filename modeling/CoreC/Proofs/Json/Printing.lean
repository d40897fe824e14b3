import CoreC.Proofs.Json.Document

/-!
# Reading what was written

Each token is written by the rules of the grammar, so the compact text of a value is cut into the tokens of the value and
read as the value: `Json.parse?_render`. The one thing asked of the value is that its numbers are spelled by the grammar,
which is no condition on integers.
-/

namespace CoreC.Json

/-- A value each of whose numbers is written by the rules of the grammar. -/
inductive Spelled : Json → Prop where
  | null : Spelled .null
  | bool (b : Bool) : Spelled (.bool b)
  | number {n : Number} : NumberText n.chars n → Spelled (.number n)
  | string (ps : List Piece) : Spelled (.string ps)
  | array {es : List Json} : (∀ e ∈ es, Spelled e) → Spelled (.array es)
  | object {ms : List (List Piece × Json)} : (∀ m ∈ ms, Spelled m.2) → Spelled (.object ms)

namespace Printing

open Scanner Lexer Document

/-! ## Integers -/

/-- The digits of a positive number begin with another digit than zero. -/
theorem head_toDigits {n : Nat} (hn : 0 < n) : ∃ c ds, Nat.toDigits 10 n = c :: ds ∧ c ≠ '0' := by
  induction n using Nat.strongRecOn with
  | ind n ih =>
    by_cases h : n < 10
    · refine ⟨n.digitChar, [], Nat.toDigits_of_lt_base h, fun h0 => ?_⟩
      rw [Nat.digitChar_eq_zero] at h0
      omega
    · obtain ⟨c, ds, hds, hc⟩ := ih (n / 10) (by omega) (by omega)
      refine ⟨c, ds ++ [(n % 10).digitChar], ?_, hc⟩
      rw [Nat.toDigits_of_base_le (by decide) (Nat.le_of_not_lt h), hds]
      rfl

/-- The digits of a number have no zero in front, unless it is zero. -/
theorem whole_toDigits (n : Nat) : Whole (Nat.toDigits 10 n) := by
  cases n with
  | zero =>
    rw [Nat.toDigits_zero]
    exact .zero
  | succ n =>
    obtain ⟨c, ds, hds, hc⟩ := head_toDigits (Nat.succ_pos n)
    rw [hds]
    refine .digits hc ⟨List.cons_ne_nil c ds, fun d hd => ?_⟩
    rw [← hds] at hd
    exact Nat.isDigit_of_mem_toDigits (by decide) (by decide) hd

/-- An integer is written by the rules of the grammar. -/
theorem numberText_integer (negative : Bool) (n : Nat) :
    NumberText (Number.integer negative n).chars (.integer negative n) := by
  have h := NumberText.integer negative (whole_toDigits n)
  rw [Nat.ofDigitChars_ten_toDigits] at h
  cases negative with
  | true => exact h
  | false => exact h

/-! ## Strings -/

/-- A number of two bytes is written in four digits. -/
theorem hex4_hexDigits {u : Nat} (h : u < 65536) : Hex4 (Piece.hexDigits u) u := by
  have hu : u = ((u / 4096 % 16 * 16 + u / 256 % 16) * 16 + u / 16 % 16) * 16 + u % 16 := by omega
  have hdigit : ∀ n, HexDigit (Nat.digitChar (n % 16)) (n % 16) := by
    intro n
    exact ⟨Nat.mod_lt n (by decide), Or.inl rfl⟩
  have hmk := Hex4.mk (hdigit (u / 4096)) (hdigit (u / 256)) (hdigit (u / 16)) (hdigit u)
  rw [← hu] at hmk
  exact hmk

/-- A piece of a string is written by the rules of the grammar. -/
theorem pieceText_chars (p : Piece) : PieceText p.chars p := by
  unfold Piece.chars
  split
  · exact .short .quote
  · exact .short .backslash
  · exact .short .backspace
  · exact .short .tab
  · exact .short .lineFeed
  · exact .short .formFeed
  · exact .short .carriageReturn
  · rename_i c _ _ _ _ _ _ _
    split
    · rename_i hlt
      have : c.toNat < 32 := hlt
      exact .unit (hex4_hexDigits (by omega))
    · rename_i hlt
      exact .raw (Char.not_lt.1 hlt) ‹_› ‹_›
  · rename_i h
    exact .high (hex4_hexDigits (by omega))
  · rename_i l
    exact .low (hex4_hexDigits (by omega))

/-- Pieces are written as the grammar has them. -/
theorem piecesText_chars (ps : List Piece) : PiecesText (ps.flatMap Piece.chars) ps := by
  induction ps with
  | nil => exact .nil
  | cons p ps ih =>
    rw [List.flatMap_cons]
    exact .cons (pieceText_chars p) ih

/-! ## Tokens -/

/-- The text of some tokens is cut into these tokens again. -/
def Cuts (tokens : List Token) : Prop :=
  Token.lexOnto [] (tokens.flatMap Token.chars) = some tokens

theorem cuts_nil : Cuts [] :=
  lex_eq_nil_iff.2 nofun

/-- One more token in front, if it is no number, is cut off again. -/
theorem cuts_cons (token : Token) (ht : TokenText token.chars token) (hn : ∀ n, token ≠ .number n)
    {tokens : List Token} (h : Cuts tokens) : Cuts (token :: tokens) := by
  unfold Cuts
  rw [List.flatMap_cons, lex_mark token ht hn, h]
  rfl

/-- A string in front of tokens is cut off from them by its mark. -/
theorem cuts_string (ps : List Piece) {tokens : List Token} (h : Cuts tokens) : Cuts (.string ps :: tokens) := by
  refine cuts_cons (.string ps) (StringText.mk (piecesText_chars ps)) (fun n hn => ?_) h
  cases hn

/-- One more number in front is cut off again where it cannot go on. -/
theorem cuts_number {n : Number} (hn : NumberText n.chars n) {tokens : List Token}
    (hr : Stops (tokens.flatMap Token.chars)) (h : Cuts tokens) : Cuts (.number n :: tokens) := by
  unfold Cuts
  rw [List.flatMap_cons, lex_token (show TokenText (Token.number n).chars (.number n) from hn) fun _ _ => hr, h]
  rfl

theorem stops_elementsOnto (tokens : List Token) (es : List Json) :
    Stops ((elementsOnto tokens es).flatMap Token.chars) := by
  cases es with
  | nil => rw [elementsOnto]; exact stops_bracketClose _
  | cons e es => rw [elementsOnto]; exact stops_comma _

theorem stops_membersOnto (tokens : List Token) (ms : List (List Piece × Json)) :
    Stops ((membersOnto tokens ms).flatMap Token.chars) := by
  cases ms with
  | nil => rw [membersOnto]; exact stops_braceClose _
  | cons m ms => rw [membersOnto]; exact stops_comma _

mutual

/-- The tokens of a value in front of others are cut off again. -/
theorem cuts_tokensOnto : ∀ (v : Json) (_ : Spelled v) {tokens : List Token}
    (_ : Stops (tokens.flatMap Token.chars)) (_ : Cuts tokens), Cuts (tokensOnto tokens v)
  | .null, _, _, _, h => by
    rw [tokensOnto]
    exact cuts_cons .null rfl nofun h
  | .bool b, _, _, _, h => by
    rw [tokensOnto]
    exact cuts_cons (.bool b) rfl nofun h
  | .number n, hv, _, hr, h => by
    rw [tokensOnto]
    cases hv with | number hn => exact cuts_number hn hr h
  | .string ps, _, _, _, h => by
    rw [tokensOnto]
    exact cuts_string ps h
  | .array [], _, _, _, h => by
    rw [tokensOnto]
    exact cuts_cons .bracketOpen rfl nofun (cuts_cons .bracketClose rfl nofun h)
  | .array (e :: es), hv, tokens, _, h => by
    rw [tokensOnto]
    cases hv with
    | array hes =>
      rw [List.forall_mem_cons] at hes
      have htail := cuts_elementsOnto es hes.2 h
      exact cuts_cons .bracketOpen rfl nofun (cuts_tokensOnto e hes.1 (stops_elementsOnto tokens es) htail)
  | .object [], _, _, _, h => by
    rw [tokensOnto]
    exact cuts_cons .braceOpen rfl nofun (cuts_cons .braceClose rfl nofun h)
  | .object ((k, v) :: ms), hv, tokens, _, h => by
    rw [tokensOnto]
    cases hv with
    | object hms =>
      rw [List.forall_mem_cons] at hms
      have htail := cuts_membersOnto ms hms.2 h
      have hvalue := cuts_tokensOnto v hms.1 (stops_membersOnto tokens ms) htail
      exact cuts_cons .braceOpen rfl nofun (cuts_string k (cuts_cons .colon rfl nofun hvalue))

/-- The tokens of further elements in front of others are cut off again. -/
theorem cuts_elementsOnto : ∀ (es : List Json) (_ : ∀ e ∈ es, Spelled e) {tokens : List Token} (_ : Cuts tokens),
    Cuts (elementsOnto tokens es)
  | [], _, _, h => by
    rw [elementsOnto]
    exact cuts_cons .bracketClose rfl nofun h
  | e :: es, hes, tokens, h => by
    rw [elementsOnto]
    rw [List.forall_mem_cons] at hes
    have htail := cuts_elementsOnto es hes.2 h
    exact cuts_cons .comma rfl nofun (cuts_tokensOnto e hes.1 (stops_elementsOnto tokens es) htail)

/-- The tokens of further members in front of others are cut off again. -/
theorem cuts_membersOnto : ∀ (ms : List (List Piece × Json)) (_ : ∀ m ∈ ms, Spelled m.2) {tokens : List Token}
    (_ : Cuts tokens), Cuts (membersOnto tokens ms)
  | [], _, _, h => by
    rw [membersOnto]
    exact cuts_cons .braceClose rfl nofun h
  | (k, v) :: ms, hms, tokens, h => by
    rw [membersOnto]
    rw [List.forall_mem_cons] at hms
    have htail := cuts_membersOnto ms hms.2 h
    have hvalue := cuts_tokensOnto v hms.1 (stops_membersOnto tokens ms) htail
    exact cuts_cons .comma rfl nofun (cuts_string k (cuts_cons .colon rfl nofun hvalue))

end

end Printing

/-- Reading the compact text of a value gives the value. -/
theorem parse?_render {v : Json} (hv : Spelled v) : Json.parse? v.render = some v := by
  rw [parse?_eq_some_iff, ← Document.lex_eq_tokens_iff, render, String.toList_ofList]
  exact Printing.cuts_tokensOnto v hv Document.stops_nil Printing.cuts_nil

end CoreC.Json
