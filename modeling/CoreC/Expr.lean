import CoreC.Ty

/-!
# Expressions and places

A place is what can be assigned to or pointed at: a variable, a field of a place, or what a place points at. Every place
can be read as an expression (`Place.toExpr`).
-/

namespace CoreC

/-- A binary operator. -/
inductive BinaryOp where
  | add
  | sub
  | mul
  | div
  | equal
  | less
  deriving DecidableEq, Repr

/-- The symbol of an operator. -/
def BinaryOp.symbol : BinaryOp → String
  | .add => "+"
  | .sub => "-"
  | .mul => "*"
  | .div => "/"
  | .equal => "=="
  | .less => "<"

instance : ToString BinaryOp := ⟨BinaryOp.symbol⟩

/-- A place in memory that an assignment can change. -/
inductive Place where
  | var (name : VarName)
  | field (base : Place) (name : FieldName)
  | deref (pointer : Place)
  deriving DecidableEq, Repr

/-- An expression. -/
inductive Expr where
  | int (value : Int64)
  | char (value : Char)
  | bool (value : Bool)
  | var (name : VarName)
  | malloc (size : Expr)
  | free (pointer : Expr)
  | sizeof (ty : Ty)
  | binary (op : BinaryOp) (left right : Expr)
  | construct (name : StructName) (arguments : List Expr)
  | call (name : FunName) (arguments : List Expr)
  | cast (target : Ty) (operand : Expr)
  | addressOf (place : Place)
  | deref (pointer : Expr)
  | field (object : Expr) (name : FieldName)

/-- The expression that reads a place. -/
def Place.toExpr : Place → Expr
  | .var x => .var x
  | .field base f => .field base.toExpr f
  | .deref pointer => .deref pointer.toExpr

end CoreC
