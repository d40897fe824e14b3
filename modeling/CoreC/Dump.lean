import CoreC.Expr

/-!
# Expressions as a log holds them

An expression in a log is written out with all its parts (`Expr.dump`): each form with its tag, one part in brackets or
several parts with their labels in braces. Names and characters are quoted. Inside the quotes some characters are escaped, and
those that cannot be shown by themselves are written by their numbers. Which ones cannot be shown is not decided here: it is
the parameter `hidden` of what follows.
-/

namespace CoreC

namespace Dump

/-- A character between quotation marks of a kind. -/
def quoted (hidden : Char → Bool) (mark : Char) (c : Char) : String :=
  if c = '\x00' then "\\0"
  else if c = '\t' then "\\t"
  else if c = '\r' then "\\r"
  else if c = '\n' then "\\n"
  else if c = mark ∨ c = '\\' then "\\" ++ c.toString
  else if hidden c then "\\u\x7b" ++ String.ofList (Nat.toDigits 16 c.toNat) ++ "\x7d"
  else c.toString

/-- A text in quotation marks. -/
def text (hidden : Char → Bool) (s : String) : String :=
  "\"" ++ String.join (s.toList.map (quoted hidden '"')) ++ "\""

/-- A form with one part. -/
def form (tag part : String) : String :=
  tag ++ "(" ++ part ++ ")"

/-- A form with several parts, which have labels. -/
def record (tag : String) (parts : List (String × String)) : String :=
  tag ++ " \x7b " ++ ", ".intercalate (parts.map fun (label, part) => label ++ ": " ++ part) ++ " \x7d"

/-- A list of parts. -/
def list (parts : List String) : String :=
  "[" ++ ", ".intercalate parts ++ "]"

end Dump

/-- The tag of names of a kind. -/
def NameKind.tag : NameKind → String
  | .var => "Variable"
  | .struct => "StructureName"
  | .func => "FunctionName"
  | .field => "FieldName"

/-- A name as a log holds it. -/
def Name.dump {kind : NameKind} (hidden : Char → Bool) (name : Name kind) : String :=
  Dump.form kind.tag (Dump.text hidden name.text)

/-- A type as a log holds it. -/
def Ty.dump (hidden : Char → Bool) : Ty → String
  | .void => "Void"
  | .int => "Int"
  | .char => "Char"
  | .bool => "Bool"
  | .pointer target => Dump.form "Pointer" (target.dump hidden)
  | .struct name => Dump.form "Structure" (name.dump hidden)

/-- An operator as a log holds it. -/
def BinaryOp.dump : BinaryOp → String
  | .add => "Add"
  | .sub => "Sub"
  | .mul => "Mul"
  | .div => "Div"
  | .equal => "Equal"
  | .less => "Less"

/-- A place as a log holds it. -/
def Place.dump (hidden : Char → Bool) : Place → String
  | .var name => Dump.form "Variable" (name.dump hidden)
  | .field base name => Dump.record "FieldAccess" [("base", base.dump hidden), ("field", name.dump hidden)]
  | .deref pointer => Dump.form "Dereference" (pointer.dump hidden)

mutual

/-- An expression as a log holds it. -/
def Expr.dump (hidden : Char → Bool) : Expr → String
  | .int value => Dump.form "IntLiteral" (toString value.toInt)
  | .char value => Dump.form "CharLiteral" ("'" ++ Dump.quoted hidden '\'' value ++ "'")
  | .bool value => Dump.form "BoolLiteral" (toString value)
  | .var name => Dump.form "Variable" (name.dump hidden)
  | .malloc size => Dump.form "Malloc" (size.dump hidden)
  | .free pointer => Dump.form "Free" (pointer.dump hidden)
  | .sizeof ty => Dump.form "Sizeof" (ty.dump hidden)
  | .binary op left right =>
    Dump.record "Binary" [("op", op.dump), ("left", left.dump hidden), ("right", right.dump hidden)]
  | .construct name arguments =>
    Dump.record "MakeStructure" [("name", name.dump hidden), ("arguments", Dump.list (Expr.listDump hidden arguments))]
  | .call name arguments =>
    Dump.record "Call" [("function", name.dump hidden), ("arguments", Dump.list (Expr.listDump hidden arguments))]
  | .cast target operand => Dump.record "Cast" [("target_type", target.dump hidden), ("operand", operand.dump hidden)]
  | .addressOf place => Dump.form "AddressOf" (place.dump hidden)
  | .deref pointer => Dump.form "Dereference" (pointer.dump hidden)
  | .field object name => Dump.record "FieldAccess" [("object", object.dump hidden), ("field", name.dump hidden)]

/-- Some expressions as a log holds them. -/
def Expr.listDump (hidden : Char → Bool) : List Expr → List String
  | [] => []
  | e :: es => e.dump hidden :: Expr.listDump hidden es

end

end CoreC
