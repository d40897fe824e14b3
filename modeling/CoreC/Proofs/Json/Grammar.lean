import CoreC.Json.Basic

/-!
# The grammar of JSON

Strict JSON as a relation between texts and values, without a word on how a text is read. A rule names the whole text of
what it derives: the parts stand one behind the other, and blanks stand where the rules put them and nowhere else.

A value keeps as much of its text as a reader of the language may ask about, so the grammar says that too: an integer is
apart from a number with a fraction or an exponent, and a `\u` escape of half a surrogate pair is a piece of its own.
`Json.Document t v` says that the text `t` is one value `v` with nothing but blanks around it.
-/

namespace CoreC.Json

/-- A run of blanks, the empty one included. -/
def Blanks (w : List Char) : Prop :=
  ∀ c ∈ w, c = ' ' ∨ c = '\t' ∨ c = '\n' ∨ c = '\r'

/-! ## Strings -/

/-- The letters that stand behind a backslash for one character. -/
inductive ShortEscape : Char → Char → Prop where
  | quote : ShortEscape '"' '"'
  | backslash : ShortEscape '\\' '\\'
  | slash : ShortEscape '/' '/'
  | backspace : ShortEscape 'b' '\x08'
  | formFeed : ShortEscape 'f' '\x0c'
  | lineFeed : ShortEscape 'n' '\n'
  | carriageReturn : ShortEscape 'r' '\r'
  | tab : ShortEscape 't' '\t'

/-- A hexadecimal digit of a value, in either case. -/
def HexDigit (c : Char) (n : Nat) : Prop :=
  n < 16 ∧ (c = Nat.digitChar n ∨ c = (Nat.digitChar n).toUpper)

/-- Four hexadecimal digits and the number they spell. -/
inductive Hex4 : List Char → Nat → Prop where
  | mk {a b c d : Char} {k l m n : Nat} : HexDigit a k → HexDigit b l → HexDigit c m → HexDigit d n →
      Hex4 [a, b, c, d] (((k * 16 + l) * 16 + m) * 16 + n)

/-- One piece of a string: a character as itself, if it is no control character, quote or backslash; an escape of one
letter; or an escape of four digits, for a character or for half a surrogate pair. -/
inductive PieceText : List Char → Piece → Prop where
  | raw {c : Char} : ' ' ≤ c → c ≠ '"' → c ≠ '\\' → PieceText [c] (.char c)
  | short {letter c : Char} : ShortEscape letter c → PieceText ['\\', letter] (.char c)
  | unit {digits : List Char} {c : Char} : Hex4 digits c.toNat → PieceText ('\\' :: 'u' :: digits) (.char c)
  | high {digits : List Char} {offset : Fin 1024} :
      Hex4 digits (0xD800 + offset.val) → PieceText ('\\' :: 'u' :: digits) (.high offset)
  | low {digits : List Char} {offset : Fin 1024} :
      Hex4 digits (0xDC00 + offset.val) → PieceText ('\\' :: 'u' :: digits) (.low offset)

/-- Pieces one behind the other. -/
inductive PiecesText : List Char → List Piece → Prop where
  | nil : PiecesText [] []
  | cons {t r : List Char} {p : Piece} {ps : List Piece} :
      PieceText t p → PiecesText r ps → PiecesText (t ++ r) (p :: ps)

/-- A string in its quotes. -/
inductive StringText : List Char → List Piece → Prop where
  | mk {t : List Char} {ps : List Piece} : PiecesText t ps → StringText ('"' :: (t ++ ['"'])) ps

/-! ## Numbers -/

/-- One decimal digit or more. -/
def Digits (ds : List Char) : Prop :=
  ds ≠ [] ∧ ∀ c ∈ ds, c.isDigit = true

/-- The whole part of a number: no zero in front of other digits. -/
inductive Whole : List Char → Prop where
  | zero : Whole ['0']
  | digits {c : Char} {ds : List Char} : c ≠ '0' → Digits (c :: ds) → Whole (c :: ds)

/-- The fraction of a number, if there is one. -/
inductive Fraction : List Char → Prop where
  | absent : Fraction []
  | digits {ds : List Char} : Digits ds → Fraction ('.' :: ds)

/-- The exponent of a number, if there is one. -/
inductive Exponent : List Char → Prop where
  | absent : Exponent []
  | unsigned {mark : Char} {ds : List Char} : mark = 'e' ∨ mark = 'E' → Digits ds → Exponent (mark :: ds)
  | signed {mark sign : Char} {ds : List Char} :
      mark = 'e' ∨ mark = 'E' → sign = '+' ∨ sign = '-' → Digits ds → Exponent (mark :: sign :: ds)

/-- The sign of a number. -/
def signText (negative : Bool) : List Char :=
  if negative then ['-'] else []

/-- A number: an integer with the magnitude its digits spell, or one that has a fraction or an exponent. -/
inductive NumberText : List Char → Number → Prop where
  | integer (negative : Bool) {whole : List Char} :
      Whole whole → NumberText (signText negative ++ whole) (.integer negative (Nat.ofDigitChars 10 whole 0))
  | decimal (negative : Bool) {whole fraction exponent : List Char} :
      Whole whole → Fraction fraction → Exponent exponent → ¬(fraction = [] ∧ exponent = []) →
      NumberText (signText negative ++ whole ++ fraction ++ exponent)
        (.decimal (signText negative ++ whole ++ fraction ++ exponent))

/-! ## Values -/

mutual

/-- A value, from its first character to its last. -/
inductive ValueText : List Char → Json → Prop where
  | null : ValueText ['n', 'u', 'l', 'l'] .null
  | true : ValueText ['t', 'r', 'u', 'e'] (.bool true)
  | false : ValueText ['f', 'a', 'l', 's', 'e'] (.bool false)
  | number {t : List Char} {n : Number} : NumberText t n → ValueText t (.number n)
  | string {t : List Char} {ps : List Piece} : StringText t ps → ValueText t (.string ps)
  | emptyArray {w : List Char} : Blanks w → ValueText ('[' :: (w ++ [']'])) (.array [])
  | array {t : List Char} {es : List Json} : ElementsText t es → ValueText ('[' :: (t ++ [']'])) (.array es)
  | emptyObject {w : List Char} : Blanks w → ValueText ('\x7b' :: (w ++ ['\x7d'])) (.object [])
  | object {t : List Char} {ms : List (List Piece × Json)} :
      MembersText t ms → ValueText ('\x7b' :: (t ++ ['\x7d'])) (.object ms)

/-- Elements of an array, one or more, with commas between them and blanks around each. -/
inductive ElementsText : List Char → List Json → Prop where
  | one {w₁ t w₂ : List Char} {e : Json} :
      Blanks w₁ → ValueText t e → Blanks w₂ → ElementsText (w₁ ++ (t ++ w₂)) [e]
  | more {w₁ t w₂ r : List Char} {e : Json} {es : List Json} :
      Blanks w₁ → ValueText t e → Blanks w₂ → ElementsText r es →
      ElementsText (w₁ ++ (t ++ (w₂ ++ ',' :: r))) (e :: es)

/-- Members of an object, one or more, with commas between them and blanks around each key and value. -/
inductive MembersText : List Char → List (List Piece × Json) → Prop where
  | one {w₁ s w₂ w₃ t w₄ : List Char} {k : List Piece} {v : Json} :
      Blanks w₁ → StringText s k → Blanks w₂ → Blanks w₃ → ValueText t v → Blanks w₄ →
      MembersText (w₁ ++ (s ++ (w₂ ++ ':' :: (w₃ ++ (t ++ w₄))))) [(k, v)]
  | more {w₁ s w₂ w₃ t w₄ r : List Char} {k : List Piece} {v : Json} {ms : List (List Piece × Json)} :
      Blanks w₁ → StringText s k → Blanks w₂ → Blanks w₃ → ValueText t v → Blanks w₄ → MembersText r ms →
      MembersText (w₁ ++ (s ++ (w₂ ++ ':' :: (w₃ ++ (t ++ (w₄ ++ ',' :: r)))))) ((k, v) :: ms)

end

/-- A text that holds one value and nothing else but blanks. -/
inductive Document : List Char → Json → Prop where
  | mk {w₁ t w₂ : List Char} {v : Json} :
      Blanks w₁ → ValueText t v → Blanks w₂ → Document (w₁ ++ (t ++ w₂)) v

end CoreC.Json
