import CoreC.Failure
import CoreC.Interchange.Decode
import CoreC.Typing.Program

/-!
# Checking texts

The whole way from a text in the interchange form to its answer. What is wrong with a text that
is refused can be said in many ways. The words are not fixed here: they are the parameter `reason` of what follows.
-/

namespace CoreC.Source

/-- The program a text holds. -/
def readProgram (reason : String → String) (text : String) : Except Failure Program :=
  match Program.parse? text with
  | some p => .ok p
  | none => .error (.malformed ("invalid program: " ++ reason text))

/-- The expression a text holds. -/
def readExpr (reason : String → String) (text : String) : Except Failure Expr :=
  match Expr.parse? text with
  | some e => .ok e
  | none => .error (.malformed ("invalid expression: " ++ reason text))

/-- What a program in a text declares, if it is well-typed, with the log of its check. A text that holds no program leaves
an empty log. -/
def checkProgram (reason : String → String) (text : String) : Log × Except Failure Globals :=
  match readProgram reason text with
  | .ok p =>
    let checked := p.check
    (checked.log, checked.result.mapError .ofTypeError)
  | .error failure => ([], .error failure)

/-- The type of an expression in a text, which stands alone. -/
def typeOfExpr (reason : String → String) (text : String) : Except Failure Ty := do
  let e ← readExpr reason text
  e.typeOfClosed.result.mapError .ofTypeError

end CoreC.Source
