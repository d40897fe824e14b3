import CoreC.Json.Token

/-!
# Reading JSON

A JSON text is cut into tokens, and the tokens are put together one at a time by a machine that holds the containers still
open in a list (`Json.Reader.step`). How deep a text nests therefore costs no more than how long it is.

`Json.parse?` reads a text that holds one value and nothing else but blanks.
-/

namespace CoreC.Json

namespace Reader

/-- A container still open: what it holds so far, newest first, and for an object the key whose value is being read. -/
inductive Frame where
  | array (read : List Json)
  | object (read : List (List Piece × Json)) (key : List Piece)

/-- What may come next, with the containers that are open around it, innermost first. -/
inductive State where
  /-- A value. -/
  | value (outer : List Frame)
  /-- The first element of an array, or its end. -/
  | firstElement (outer : List Frame)
  /-- The first key of an object, or its end. -/
  | firstKey (outer : List Frame)
  /-- A key. -/
  | key (read : List (List Piece × Json)) (outer : List Frame)
  /-- The colon behind a key. -/
  | colon (read : List (List Piece × Json)) (key : List Piece) (outer : List Frame)
  /-- What follows a value: a comma or the end of its container, and nothing at all if no container is open. -/
  | after (value : Json) (outer : List Frame)

/-- The state behind the first token of a value. -/
def begin (outer : List Frame) : Token → Option State
  | .null => some (.after .null outer)
  | .bool b => some (.after (.bool b) outer)
  | .number n => some (.after (.number n) outer)
  | .string ps => some (.after (.string ps) outer)
  | .bracketOpen => some (.firstElement outer)
  | .braceOpen => some (.firstKey outer)
  | _ => none

/-- The state behind one more token, if that token may come here. -/
def step : State → Token → Option State
  | .value outer, t => begin outer t
  | .firstElement outer, .bracketClose => some (.after (.array []) outer)
  | .firstElement outer, t => begin (.array [] :: outer) t
  | .firstKey outer, .braceClose => some (.after (.object []) outer)
  | .firstKey outer, .string k => some (.colon [] k outer)
  | .firstKey _, _ => none
  | .key read outer, .string k => some (.colon read k outer)
  | .key _ _, _ => none
  | .colon read k outer, .colon => some (.value (.object read k :: outer))
  | .colon _ _ _, _ => none
  | .after v (.array read :: outer), .comma => some (.value (.array (v :: read) :: outer))
  | .after v (.array read :: outer), .bracketClose => some (.after (.array (v :: read).reverse) outer)
  | .after v (.object read k :: outer), .comma => some (.key ((k, v) :: read) outer)
  | .after v (.object read k :: outer), .braceClose => some (.after (.object ((k, v) :: read).reverse) outer)
  | .after _ _, _ => none

/-- The value a list of tokens completes: every token may come where it stands, and at the end no container is open. -/
def run : State → List Token → Option Json
  | .after v [], [] => some v
  | _, [] => none
  | s, t :: rest =>
    match step s t with
    | some s' => run s' rest
    | none => none

end Reader

/-- The value a list of tokens spells. -/
def ofTokens? (tokens : List Token) : Option Json :=
  Reader.run (.value []) tokens

/-- The value of a text that holds one value, with nothing but blanks around it. -/
def parse? (text : String) : Option Json := do
  ofTokens? (← Token.lex text)

end CoreC.Json
