import CoreC.Globals
import CoreC.Scope

/-!
# The types of expressions and places

`Expr.typeOf` and `Place.typeOf` give the type of an expression or a place, or its first fault: parts are looked at from
left to right, before what is made of them. An expression that has a type is reported, behind its parts; places are not
reported.
-/

namespace CoreC

/-- The type a pointer points at. -/
def Ty.pointee : Ty → Except TypeError Ty
  | .pointer target => .ok target
  | ty => .error (.notAPointer ty)

/-- The type of a field of a value of a type, which must be a structure. -/
def Globals.fieldOf (g : Globals) (object : Ty) (field : FieldName) : Except TypeError Ty :=
  match object with
  | .struct name => g.structs.fieldType name field
  | ty => .error (.notAStruct ty)

/-- The type of an operation on operands of two types. An integer is added to an integer or to a pointer; values of any
one type are equal or not; all else is for integers. The left operand is looked at first. -/
def BinaryOp.typeOf (op : BinaryOp) (left right : Ty) : Except TypeError Ty :=
  match op with
  | .add =>
    match left with
    | .int | .pointer _ => do
      Ty.expect .int right
      return left
    | _ => throw (.invalidOperand .add left)
  | .sub | .mul | .div => do
    Ty.expect .int left
    Ty.expect .int right
    return .int
  | .equal => do
    Ty.expect left right
    return .bool
  | .less => do
    Ty.expect .int left
    Ty.expect .int right
    return .bool

/-- The type of what a place holds. -/
def Place.typeOf (g : Globals) (Γ : Scope) : Place → Except TypeError Ty
  | .var x => Γ.lookup x
  | .field base f => do g.fieldOf (← base.typeOf g Γ) f
  | .deref pointer => do (← pointer.typeOf g Γ).pointee

/-- A callee takes as many arguments as it has types for. -/
def Callee.checkArity (callee : Callee) (expected found : Nat) : Except TypeError Unit :=
  if expected = found then .ok () else .error (.arityMismatch callee expected found)

mutual

/-- The type of an expression. -/
def Expr.typeOf (g : Globals) (Γ : Scope) (e : Expr) : Check Ty := do
  let ty ← match e with
    | .int _ => pure .int
    | .char _ => pure .char
    | .bool _ => pure .bool
    | .var x => Γ.lookup x
    | .malloc size => do
      Ty.expect .int (← size.typeOf g Γ)
      pure .voidPointer
    | .free pointer => do
      Ty.expect .voidPointer (← pointer.typeOf g Γ)
      pure .void
    | .sizeof _ => pure .int
    | .binary op left right => do
      let leftType ← left.typeOf g Γ
      let rightType ← right.typeOf g Γ
      op.typeOf leftType rightType
    | .construct name arguments => do
      let fields ← g.structs.fields name
      Callee.checkArity (.struct name) fields.length arguments.length
      Expr.checkArguments g Γ (fields.map Decl.ty) arguments
      pure (.struct name)
    | .call name arguments => do
      let signature ← g.funs.signature name
      Callee.checkArity (.func name) signature.params.length arguments.length
      Expr.checkArguments g Γ signature.params arguments
      pure signature.returnType
    | .cast target operand => do
      let _ ← operand.typeOf g Γ
      pure target
    | .addressOf place => do
      let target ← place.typeOf g Γ
      pure (.pointer target)
    | .deref pointer => do
      let ty ← pointer.typeOf g Γ
      ty.pointee
    | .field object f => do
      let ty ← object.typeOf g Γ
      g.fieldOf ty f
  Check.emit (.typed e ty)
  return ty

/-- Arguments are of the types they are passed for, each looked at before the next. -/
def Expr.checkArguments (g : Globals) (Γ : Scope) : List Ty → List Expr → Check Unit
  | expected :: types, e :: arguments => do
    Ty.expect expected (← e.typeOf g Γ)
    Expr.checkArguments g Γ types arguments
  | _, _ => pure ()

end

end CoreC
