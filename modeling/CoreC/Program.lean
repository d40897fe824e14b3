import CoreC.Expr

/-!
# Statements and programs

A program declares structures and defines functions; the body of a function is one statement. A run of statements is
nested to the right (`Stmt.sequence`).
-/

namespace CoreC

/-- A statement. -/
inductive Stmt where
  | expr (value : Expr)
  | declare (decl : Decl .var) (init : Expr)
  | assign (target : Place) (value : Expr)
  | ifElse (condition : Expr) (thenBranch elseBranch : Stmt)
  | whileDo (condition : Expr) (body : Stmt)
  | breakLoop
  | continueLoop
  | returnVoid
  | returnValue (value : Expr)
  | free (pointer : Expr)
  | seq (first second : Stmt)

/-- Take statements off the end of a list, one after the other, and put each in front of what there is. -/
def Stmt.nest (statements : Array Stmt) (result : Stmt) : Stmt :=
  if h : 0 < statements.size then nest statements.pop (.seq (statements.back h) result) else result
termination_by statements.size
decreasing_by
  rw [Array.size_pop]
  exact Nat.sub_one_lt_of_lt h

/-- A run of one statement or more, one after the other. It is put together from its end. -/
def Stmt.sequence (first : Stmt) (rest : List Stmt) : Stmt :=
  let statements := rest.toArray
  if h : 0 < statements.size then .seq first (nest statements.pop (statements.back h)) else first

/-- The declaration of a structure. -/
structure StructDecl where
  name : StructName
  fields : List (Decl .field)
  deriving DecidableEq, Repr

/-- The definition of a function. -/
structure FunDef where
  returnType : Ty
  name : FunName
  params : List (Decl .var)
  body : Stmt

/-- A program. -/
structure Program where
  structs : List StructDecl := []
  funs : List FunDef := []

end CoreC
