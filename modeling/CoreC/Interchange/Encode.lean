import CoreC.Json.Printer
import CoreC.Program

/-!
# Writing programs

The canonical interchange form: a variant without a payload is its tag alone, a record is an object with its parts in their
order, and both lists of a program are written. `Program.print` and `Expr.print` give compact texts.
-/

namespace CoreC

/-- A variant with a payload. -/
def Json.variant (tag : String) (payload : Json) : Json :=
  .object [(Piece.ofText tag, payload)]

/-- A record. -/
def Json.record (parts : List (String × Json)) : Json :=
  .object (parts.map fun (name, value) => (Piece.ofText name, value))

/-- The interchange form of a name. -/
def Name.toJson {kind : NameKind} (name : Name kind) : Json :=
  .ofText name.text

/-- The interchange form of a type. -/
def Ty.toJson : Ty → Json
  | .void => .ofText "Void"
  | .int => .ofText "Int"
  | .char => .ofText "Char"
  | .bool => .ofText "Bool"
  | .pointer target => .variant "Pointer" target.toJson
  | .struct name => .variant "Structure" name.toJson

/-- The interchange form of a declaration. -/
def Decl.toJson {kind : NameKind} (decl : Decl kind) : Json :=
  .record [("var_type", decl.ty.toJson), ("name", decl.name.toJson)]

/-- The interchange form of an operator. -/
def BinaryOp.toJson : BinaryOp → Json
  | .add => .ofText "Add"
  | .sub => .ofText "Sub"
  | .mul => .ofText "Mul"
  | .div => .ofText "Div"
  | .equal => .ofText "Equal"
  | .less => .ofText "Less"

/-- The interchange form of a place. -/
def Place.toJson : Place → Json
  | .var name => .variant "Variable" name.toJson
  | .field base name => .variant "FieldAccess" (.record [("base", base.toJson), ("field", name.toJson)])
  | .deref pointer => .variant "Dereference" pointer.toJson

mutual

/-- The interchange form of an expression. -/
def Expr.toJson : Expr → Json
  | .int value => .variant "IntLiteral" (.ofInt value.toInt)
  | .char value => .variant "CharLiteral" (.ofText value.toString)
  | .bool value => .variant "BoolLiteral" (.bool value)
  | .var name => .variant "Variable" name.toJson
  | .malloc size => .variant "Malloc" size.toJson
  | .free pointer => .variant "Free" pointer.toJson
  | .sizeof ty => .variant "Sizeof" ty.toJson
  | .binary op left right =>
    .variant "Binary" (.record [("op", op.toJson), ("left", left.toJson), ("right", right.toJson)])
  | .construct name arguments =>
    .variant "MakeStructure" (.record [("name", name.toJson), ("arguments", .array (Expr.listToJson arguments))])
  | .call name arguments =>
    .variant "Call" (.record [("function", name.toJson), ("arguments", .array (Expr.listToJson arguments))])
  | .cast target operand =>
    .variant "Cast" (.record [("target_type", target.toJson), ("operand", operand.toJson)])
  | .addressOf place => .variant "AddressOf" place.toJson
  | .deref pointer => .variant "Dereference" pointer.toJson
  | .field object name => .variant "FieldAccess" (.record [("object", object.toJson), ("field", name.toJson)])

/-- The interchange forms of some expressions. -/
def Expr.listToJson : List Expr → List Json
  | [] => []
  | e :: es => e.toJson :: Expr.listToJson es

end

/-- The interchange form of a statement. -/
def Stmt.toJson : Stmt → Json
  | .expr value => .variant "Expression" value.toJson
  | .declare decl init =>
    .variant "VariableDeclaration" (.record [("declaration", decl.toJson), ("initializer", init.toJson)])
  | .assign target value => .variant "Assignment" (.record [("target", target.toJson), ("value", value.toJson)])
  | .ifElse condition thenBranch elseBranch =>
    .variant "If" (.record [("condition", condition.toJson), ("then_stmt", thenBranch.toJson),
      ("else_stmt", elseBranch.toJson)])
  | .whileDo condition body => .variant "While" (.record [("condition", condition.toJson), ("body", body.toJson)])
  | .breakLoop => .ofText "Break"
  | .continueLoop => .ofText "Continue"
  | .returnVoid => .ofText "ReturnVoid"
  | .returnValue value => .variant "Return" value.toJson
  | .free pointer => .variant "Free" pointer.toJson
  | .seq first second => .variant "Sequence" (.array [first.toJson, second.toJson])

/-- The interchange form of the declaration of a structure. -/
def StructDecl.toJson (decl : StructDecl) : Json :=
  .record [("name", decl.name.toJson), ("fields", .array (decl.fields.map Decl.toJson))]

/-- The interchange form of the definition of a function. -/
def FunDef.toJson (f : FunDef) : Json :=
  .record [("return_type", f.returnType.toJson), ("name", f.name.toJson), ("parameters", .array (f.params.map Decl.toJson)),
    ("body", f.body.toJson)]

/-- The interchange form of a program. -/
def Program.toJson (p : Program) : Json :=
  .record [("structures", .array (p.structs.map StructDecl.toJson)), ("functions", .array (p.funs.map FunDef.toJson))]

/-- The canonical text of a program. -/
def Program.print (p : Program) : String :=
  p.toJson.render

/-- The canonical text of an expression. -/
def Expr.print (e : Expr) : String :=
  e.toJson.render

end CoreC
