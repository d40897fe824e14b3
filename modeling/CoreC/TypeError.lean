import CoreC.Expr

/-!
# What can be wrong with a program

The faults the checker finds, each with what it says about the place, and their texts: a kind (`TypeError.kind`) and a
message (`TypeError.message`).
-/

namespace CoreC

/-- What takes arguments: a structure takes one for each field, a function one for each parameter. -/
inductive Callee where
  | struct (name : StructName)
  | func (name : FunName)
  deriving DecidableEq, Repr

/-- The name of what takes arguments. -/
def Callee.text : Callee → String
  | .struct name => name.text
  | .func name => name.text

instance : ToString Callee := ⟨Callee.text⟩

/-- A fault of a program. -/
inductive TypeError where
  | unboundVariable (name : VarName)
  | typeMismatch (expected found : Ty)
  | arityMismatch (callee : Callee) (expected found : Nat)
  | unknownFunction (name : FunName)
  | unknownStruct (name : StructName)
  | unknownField (struct : StructName) (field : FieldName)
  | notAPointer (found : Ty)
  | notAStruct (found : Ty)
  | invalidOperand (op : BinaryOp) (operand : Ty)
  | duplicateStruct (name : StructName)
  | duplicateField (struct : StructName) (field : FieldName)
  | duplicateFunction (name : FunName)
  | duplicateParam (function : FunName) (param : VarName)
  | voidField (struct : StructName) (field : FieldName)
  | voidParam (function : FunName) (param : VarName)
  | voidVariable (name : VarName)
  | breakOutsideLoop
  | continueOutsideLoop
  | unreachableCode
  | missingReturn (function : FunName) (returnType : Ty)
  deriving DecidableEq, Repr

namespace TypeError

/-- The kind of a fault, as it is reported. -/
def kind : TypeError → String
  | unboundVariable _ => "UnboundVariable"
  | typeMismatch _ _ => "TypeMismatch"
  | arityMismatch _ _ _ => "ArityMismatch"
  | unknownFunction _ => "UnknownFunction"
  | unknownStruct _ => "UnknownStructure"
  | unknownField _ _ => "UnknownField"
  | notAPointer _ => "NotAPointer"
  | notAStruct _ => "NotAStructure"
  | invalidOperand _ _ => "InvalidOperand"
  | duplicateStruct _ => "DuplicateStructureName"
  | duplicateField _ _ => "DuplicateFieldName"
  | duplicateFunction _ => "DuplicateFunctionName"
  | duplicateParam _ _ => "DuplicateParameterName"
  | voidField _ _ => "VoidField"
  | voidParam _ _ => "VoidParameter"
  | voidVariable _ => "VoidVariable"
  | breakOutsideLoop => "BreakOutsideLoop"
  | continueOutsideLoop => "ContinueOutsideLoop"
  | unreachableCode => "UnreachableCode"
  | missingReturn _ _ => "MissingReturn"

/-- The message of a fault, with names and types as they are shown. -/
def message : TypeError → String
  | unboundVariable name => s!"variable not defined: {name}"
  | typeMismatch expected found => s!"expected: {expected} got: {found}"
  | arityMismatch callee expected found =>
    s!"`{callee}` has wrong arity: expected {expected} arguments, received {found}"
  | unknownFunction name => s!"function not defined: {name}"
  | unknownStruct name => s!"no such structure with name: {name}"
  | unknownField struct field => s!"structure `{struct}` has no field `{field}`"
  | notAPointer found => s!"expected a pointer; got: {found}"
  | notAStruct found => s!"expected a structure; got: {found}"
  | invalidOperand op operand => s!"invalid operand of type {operand} for `{op}`"
  | duplicateStruct name => s!"duplicate structure name: {name}"
  | duplicateField struct field => s!"duplicate field `{field}` in structure `{struct}`"
  | duplicateFunction name => s!"duplicate function name: {name}"
  | duplicateParam function param => s!"duplicate parameter `{param}` in function `{function}`"
  | voidField struct field => s!"field `{field}` of structure `{struct}` has type void"
  | voidParam function param => s!"parameter `{param}` of function `{function}` has type void"
  | voidVariable name => s!"variable `{name}` declared with type void"
  | breakOutsideLoop => "break outside of loop"
  | continueOutsideLoop => "continue outside of loop"
  | unreachableCode => "unreachable code after return"
  | missingReturn function returnType =>
    s!"function `{function}` returning {returnType} may finish without returning a value"

end TypeError

/-- Two types must be the same: the one a place expects and the one that is found there. -/
def Ty.expect (expected found : Ty) : Except TypeError Unit :=
  if expected = found then .ok () else .error (.typeMismatch expected found)

end CoreC
