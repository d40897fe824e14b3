/-!
# JSON values

A JSON document as data, kept close enough to its text that everything a reader of the language may ask of it can still be
answered: an integer is told apart from a number with a fraction or an exponent, `-0` from `0`, the members of an object
keep their order and their repetitions, and a string keeps the halves of surrogate pairs that an escape can spell alone.

What a value means is left to the functions on it: `Json.Piece.text?` is the text of a string, if it has one, and
`Json.Number.int?` the integer a number denotes, if it is one.
-/

namespace CoreC

/-- One piece of a JSON string: a character, however it is spelled, or one half of a surrogate pair, which only an escape
spells. The offsets of the halves count from U+D800 and from U+DC00. -/
inductive Json.Piece where
  | char (c : Char)
  | high (offset : Fin 1024)
  | low (offset : Fin 1024)
  deriving DecidableEq, Repr

/-- The character a surrogate pair stands for. -/
def Json.Piece.pair (high low : Fin 1024) : Char :=
  Char.ofNat (0x10000 + 1024 * high.val + low.val)

/-- The characters of a string behind those already read, newest first: a pair of halves is one character, and a half
that stands alone has none. -/
def Json.Piece.textOnto (read : List Char) : List Json.Piece → Option String
  | [] => some (String.ofList read.reverse)
  | .char c :: rest => textOnto (c :: read) rest
  | .high h :: .low l :: rest => textOnto (pair h l :: read) rest
  | .high _ :: _ => none
  | .low _ :: _ => none

/-- The text of a string, if every half of a surrogate pair in it has its other half. -/
def Json.Piece.text? (pieces : List Json.Piece) : Option String :=
  textOnto [] pieces

/-- The pieces of a text: its characters. -/
def Json.Piece.ofText (text : String) : List Json.Piece :=
  text.toList.map .char

/-- A JSON number: an integer in sign and magnitude (`-0` is not `0`), or a number with a fraction or an exponent, of
which only the spelling is kept because no value of the language is one. -/
inductive Json.Number where
  | integer (negative : Bool) (magnitude : Nat)
  | decimal (spelling : List Char)
  deriving DecidableEq, Repr

/-- The number an integer is written as. -/
def Json.Number.ofInt (i : Int) : Json.Number :=
  .integer (i < 0) i.natAbs

/-- The integer a number denotes. A number with a fraction or an exponent is none, whatever its value, and neither
is `-0`. -/
def Json.Number.int? : Json.Number → Option Int
  | .integer false n => some n
  | .integer true 0 => none
  | .integer true n => some (-n)
  | .decimal _ => none

/-- A JSON value. -/
inductive Json where
  | null
  | bool (value : Bool)
  | number (value : Json.Number)
  | string (pieces : List Json.Piece)
  | array (elements : List Json)
  | object (members : List (List Json.Piece × Json))

/-- The JSON string of a text. -/
def Json.ofText (text : String) : Json :=
  .string (Piece.ofText text)

/-- The JSON number of an integer. -/
def Json.ofInt (i : Int) : Json :=
  .number (.ofInt i)

end CoreC
