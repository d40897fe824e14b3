import CoreC.Json.Basic

/-!
# Tokens of a JSON text

The words a JSON text is made of, how each is written (`Json.Token.chars`), and how a text is cut into them
(`Json.Token.lex`): blanks between tokens are dropped, and a token is the longest piece of the text that is one.

A scanner takes one part of a token off the front of a text and returns it with the rest. None gives back more than it
took, which is what makes the cutting end.
-/

namespace CoreC.Json

/-- A word of a JSON text. -/
inductive Token where
  | braceOpen
  | braceClose
  | bracketOpen
  | bracketClose
  | comma
  | colon
  | null
  | bool (value : Bool)
  | number (value : Number)
  | string (pieces : List Piece)
  deriving DecidableEq, Repr

/-! ## Writing -/

/-- The four hexadecimal digits of a code unit. -/
def Piece.hexDigits (unit : Nat) : List Char :=
  [Nat.digitChar (unit / 4096 % 16), Nat.digitChar (unit / 256 % 16), Nat.digitChar (unit / 16 % 16),
    Nat.digitChar (unit % 16)]

/-- How a piece of a string is written: the quote, the backslash and the control characters as escapes, the short ones
where there are short ones; all other characters as themselves; the halves of surrogate pairs as escapes. -/
def Piece.chars : Piece → List Char
  | .char '"' => ['\\', '"']
  | .char '\\' => ['\\', '\\']
  | .char '\x08' => ['\\', 'b']
  | .char '\t' => ['\\', 't']
  | .char '\n' => ['\\', 'n']
  | .char '\x0c' => ['\\', 'f']
  | .char '\r' => ['\\', 'r']
  | .char c => if c < ' ' then '\\' :: 'u' :: hexDigits c.toNat else [c]
  | .high h => '\\' :: 'u' :: hexDigits (0xD800 + h.val)
  | .low l => '\\' :: 'u' :: hexDigits (0xDC00 + l.val)

/-- How a number is written. -/
def Number.chars : Number → List Char
  | .integer false n => Nat.toDigits 10 n
  | .integer true n => '-' :: Nat.toDigits 10 n
  | .decimal spelling => spelling

/-- How a token is written. -/
def Token.chars : Token → List Char
  | .braceOpen => ['\x7b']
  | .braceClose => ['\x7d']
  | .bracketOpen => ['[']
  | .bracketClose => [']']
  | .comma => [',']
  | .colon => [':']
  | .null => ['n', 'u', 'l', 'l']
  | .bool true => ['t', 'r', 'u', 'e']
  | .bool false => ['f', 'a', 'l', 's', 'e']
  | .number n => n.chars
  | .string ps => '"' :: (ps.flatMap Piece.chars ++ ['"'])

/-! ## Strings -/

/-- The value of a hexadecimal digit, in either case. -/
def hexDigit? (c : Char) : Option Nat :=
  if '0' ≤ c ∧ c ≤ '9' then some (c.toNat - '0'.toNat)
  else if 'a' ≤ c ∧ c ≤ 'f' then some (c.toNat - 'a'.toNat + 10)
  else if 'A' ≤ c ∧ c ≤ 'F' then some (c.toNat - 'A'.toNat + 10)
  else none

/-- The code unit four hexadecimal digits spell. -/
def codeUnit? (a b c d : Char) : Option Nat := do
  let a ← hexDigit? a
  let b ← hexDigit? b
  let c ← hexDigit? c
  let d ← hexDigit? d
  return ((a * 16 + b) * 16 + c) * 16 + d

/-- The piece a code unit is: the units from U+D800 to U+DFFF are halves of pairs and all others are characters. -/
def Piece.ofCodeUnit (unit : Nat) : Piece :=
  if 0xD800 ≤ unit ∧ unit < 0xDC00 then .high (Fin.ofNat 1024 (unit - 0xD800))
  else if 0xDC00 ≤ unit ∧ unit < 0xE000 then .low (Fin.ofNat 1024 (unit - 0xDC00))
  else .char (Char.ofNat unit)

/-- The character an escape of one letter stands for. -/
def shortEscape? : Char → Option Char
  | '"' => some '"'
  | '\\' => some '\\'
  | '/' => some '/'
  | 'b' => some '\x08'
  | 'f' => some '\x0c'
  | 'n' => some '\n'
  | 'r' => some '\r'
  | 't' => some '\t'
  | _ => none

/-- The rest of a string whose opening quote, and the pieces given newest first, have been read: its pieces up to the
closing quote, and the text behind that quote. A control character must be escaped. -/
def scanString (read : List Piece) : List Char → Option (List Piece × List Char)
  | '"' :: rest => some (read.reverse, rest)
  | '\\' :: 'u' :: a :: b :: c :: d :: rest =>
    match codeUnit? a b c d with
    | some unit => scanString (.ofCodeUnit unit :: read) rest
    | none => none
  | '\\' :: letter :: rest =>
    match shortEscape? letter with
    | some c => scanString (.char c :: read) rest
    | none => none
  | c :: rest => if c < ' ' ∨ c = '\\' then none else scanString (.char c :: read) rest
  | [] => none

/-! ## Numbers

Each scanner returns what it took and the rest, in this order; both together are the text it was given. -/

/-- The digits at the front of a text, of which there must be one at least. -/
def scanDigits (text : List Char) : Option (List Char × List Char) :=
  match text.takeWhile Char.isDigit with
  | [] => none
  | digits => some (digits, text.dropWhile Char.isDigit)

/-- The sign of a number, which is a minus or nothing. -/
def scanSign : List Char → List Char × List Char
  | '-' :: rest => (['-'], rest)
  | text => ([], text)

/-- The whole part of a number: digits, the first of which is a zero only if it is the only one. -/
def scanWhole (text : List Char) : Option (List Char × List Char) :=
  match scanDigits text with
  | some ('0' :: _ :: _, _) => none
  | other => other

/-- What a scanner takes behind a mark that was taken already, with the mark. -/
def scanBehind (mark : Char) (scan : List Char → Option (List Char × List Char)) (text : List Char) :
    Option (List Char × List Char) :=
  (scan text).map fun (taken, rest) => (mark :: taken, rest)

/-- The fraction of a number: a point with digits behind it, or nothing. -/
def scanFraction : List Char → Option (List Char × List Char)
  | '.' :: text => scanBehind '.' scanDigits text
  | text => some ([], text)

/-- The exponent of a number behind its mark: a sign or none, then digits. -/
def scanPower : List Char → Option (List Char × List Char)
  | '+' :: text => scanBehind '+' scanDigits text
  | '-' :: text => scanBehind '-' scanDigits text
  | text => scanDigits text

/-- The exponent of a number: a mark with a power behind it, or nothing. -/
def scanExponent : List Char → Option (List Char × List Char)
  | 'e' :: text => scanBehind 'e' scanPower text
  | 'E' :: text => scanBehind 'E' scanPower text
  | text => some ([], text)

/-- The number at the front of a text. -/
def scanNumber (text : List Char) : Option (Number × List Char) := do
  let (sign, text) := scanSign text
  let (whole, text) ← scanWhole text
  let (fraction, text) ← scanFraction text
  let (exponent, text) ← scanExponent text
  if fraction.isEmpty && exponent.isEmpty then
    return (.integer (!sign.isEmpty) (Nat.ofDigitChars 10 whole 0), text)
  else
    return (.decimal (sign ++ whole ++ fraction ++ exponent), text)

/-! ## The cutting of a text -/

/-- The blanks of JSON. -/
def isBlank (c : Char) : Bool :=
  c = ' ' || c = '\t' || c = '\n' || c = '\r'

/-- The token at the front of a text that begins with no blank, and the text behind it. -/
def Token.next? : List Char → Option (Token × List Char)
  | '\x7b' :: rest => some (.braceOpen, rest)
  | '\x7d' :: rest => some (.braceClose, rest)
  | '[' :: rest => some (.bracketOpen, rest)
  | ']' :: rest => some (.bracketClose, rest)
  | ',' :: rest => some (.comma, rest)
  | ':' :: rest => some (.colon, rest)
  | 'n' :: 'u' :: 'l' :: 'l' :: rest => some (.null, rest)
  | 't' :: 'r' :: 'u' :: 'e' :: rest => some (.bool true, rest)
  | 'f' :: 'a' :: 'l' :: 's' :: 'e' :: rest => some (.bool false, rest)
  | '"' :: rest => (scanString [] rest).map fun (pieces, rest) => (.string pieces, rest)
  | text => (scanNumber text).map fun (n, rest) => (.number n, rest)

/-! ### A scanner gives back no more than it took -/

/-- A string that is scanned leaves less of the text. -/
theorem length_lt_of_scanString {read : List Piece} {text : List Char} {pieces : List Piece} {rest : List Char}
    (h : scanString read text = some (pieces, rest)) : rest.length < text.length := by
  fun_induction scanString read text <;> simp_all <;> omega

/-- What is scanned as digits stands in front of the rest. The same holds of all parts of a number below. -/
theorem append_of_scanDigits {text taken rest : List Char} (h : scanDigits text = some (taken, rest)) :
    taken ++ rest = text ∧ taken ≠ [] := by
  unfold scanDigits at h
  split at h
  · simp at h
  · rename_i hne
    simp only [Option.some.injEq, Prod.mk.injEq] at h
    obtain ⟨rfl, rfl⟩ := h
    exact ⟨List.takeWhile_append_dropWhile, hne⟩

theorem append_of_scanSign (text : List Char) : (scanSign text).1 ++ (scanSign text).2 = text := by
  fun_cases scanSign text <;> simp

theorem append_of_scanWhole {text taken rest : List Char} (h : scanWhole text = some (taken, rest)) :
    taken ++ rest = text ∧ taken ≠ [] := by
  unfold scanWhole at h
  split at h
  · simp at h
  · exact append_of_scanDigits h

theorem append_of_scanBehind {mark : Char} {scan : List Char → Option (List Char × List Char)}
    {text taken rest : List Char} (hscan : ∀ {taken rest}, scan text = some (taken, rest) → taken ++ rest = text)
    (h : scanBehind mark scan text = some (taken, rest)) : taken ++ rest = mark :: text := by
  obtain ⟨⟨taken', rest'⟩, hs, he⟩ := Option.map_eq_some_iff.1 h
  simp only [Prod.mk.injEq] at he
  obtain ⟨rfl, rfl⟩ := he
  rw [List.cons_append, hscan hs]

theorem append_of_scanFraction {text taken rest : List Char} (h : scanFraction text = some (taken, rest)) :
    taken ++ rest = text := by
  unfold scanFraction at h
  split at h
  · exact append_of_scanBehind (fun hs => (append_of_scanDigits hs).1) h
  · simp_all

theorem append_of_scanPower {text taken rest : List Char} (h : scanPower text = some (taken, rest)) :
    taken ++ rest = text := by
  unfold scanPower at h
  split at h
  · exact append_of_scanBehind (fun hs => (append_of_scanDigits hs).1) h
  · exact append_of_scanBehind (fun hs => (append_of_scanDigits hs).1) h
  · exact (append_of_scanDigits h).1

theorem append_of_scanExponent {text taken rest : List Char} (h : scanExponent text = some (taken, rest)) :
    taken ++ rest = text := by
  unfold scanExponent at h
  split at h
  · exact append_of_scanBehind append_of_scanPower h
  · exact append_of_scanBehind append_of_scanPower h
  · simp_all

/-- A number that is scanned leaves less of the text. -/
theorem length_lt_of_scanNumber {text rest : List Char} {n : Number} (h : scanNumber text = some (n, rest)) :
    rest.length < text.length := by
  simp only [scanNumber, Option.bind_eq_bind, Option.bind_eq_some_iff, Prod.exists] at h
  obtain ⟨whole, t₁, hw, fraction, t₂, hf, exponent, t₃, he, h⟩ := h
  have hs := congrArg List.length (append_of_scanSign text)
  have hw' := congrArg List.length (append_of_scanWhole hw).1
  have hne := List.length_pos_iff.2 (append_of_scanWhole hw).2
  have hf' := congrArg List.length (append_of_scanFraction hf)
  have he' := congrArg List.length (append_of_scanExponent he)
  have hr : rest = t₃ := by
    split at h <;> simp_all
  simp only [List.length_append] at hs hw' hf' he'
  subst hr
  omega

/-- A token is not empty: the text behind it is shorter than the text it stands at the front of. -/
theorem Token.length_lt_of_next? {text rest : List Char} {t : Token} (h : Token.next? text = some (t, rest)) :
    rest.length < text.length := by
  unfold Token.next? at h
  split at h
  case h_10 =>
    obtain ⟨⟨ps, r⟩, hs, he⟩ := Option.map_eq_some_iff.1 h
    simp only [Prod.mk.injEq] at he
    have := length_lt_of_scanString hs
    simp only [List.length_cons, ← he.2]
    omega
  case h_11 =>
    obtain ⟨⟨n, r⟩, hn, he⟩ := Option.map_eq_some_iff.1 h
    simp only [Prod.mk.injEq] at he
    exact he.2 ▸ length_lt_of_scanNumber hn
  all_goals
    simp only [Option.some.injEq, Prod.mk.injEq] at h
    simp only [List.length_cons, ← h.2]
    omega

/-- The tokens of a text behind those already cut off, which are given newest first. -/
def Token.lexOnto (read : List Token) (text : List Char) : Option (List Token) :=
  if (text.dropWhile isBlank).isEmpty then
    some read.reverse
  else
    match _h : Token.next? (text.dropWhile isBlank) with
    | some (t, rest) => lexOnto (t :: read) rest
    | none => none
termination_by text.length
decreasing_by
  have := Token.length_lt_of_next? _h
  have := (List.dropWhile_sublist (l := text) isBlank).length_le
  omega

/-- The tokens of a text, if it is made of tokens and blanks. -/
def Token.lex (text : String) : Option (List Token) :=
  lexOnto [] text.toList

end CoreC.Json
