import CoreC.Json.Token

/-!
# Writing JSON

The tokens of a value (`Json.tokens`) and its compact text (`Json.render`): no blanks, members and elements in their
order.
-/

namespace CoreC.Json

mutual

/-- The tokens of a value, in front of others. -/
def tokensOnto (rest : List Token) : Json → List Token
  | .null => .null :: rest
  | .bool b => .bool b :: rest
  | .number n => .number n :: rest
  | .string ps => .string ps :: rest
  | .array [] => .bracketOpen :: .bracketClose :: rest
  | .array (e :: es) => .bracketOpen :: tokensOnto (elementsOnto rest es) e
  | .object [] => .braceOpen :: .braceClose :: rest
  | .object ((k, v) :: ms) => .braceOpen :: .string k :: .colon :: tokensOnto (membersOnto rest ms) v

/-- The tokens of the elements of an array behind its first one, with the closing bracket. -/
def elementsOnto (rest : List Token) : List Json → List Token
  | [] => .bracketClose :: rest
  | e :: es => .comma :: tokensOnto (elementsOnto rest es) e

/-- The tokens of the members of an object behind its first one, with the closing brace. -/
def membersOnto (rest : List Token) : List (List Piece × Json) → List Token
  | [] => .braceClose :: rest
  | (k, v) :: ms => .comma :: .string k :: .colon :: tokensOnto (membersOnto rest ms) v

end

/-- The tokens of a value. -/
def tokens (value : Json) : List Token :=
  value.tokensOnto []

/-- The compact text of a value. -/
def render (value : Json) : String :=
  String.ofList (value.tokens.flatMap Token.chars)

end CoreC.Json
