import CoreC.Typing.Stmt

/-!
# Checking programs

A program is checked in two passes: what it declares is collected, then the bodies of its functions are checked in order
against all of it.
-/

namespace CoreC

/-- Check the body of a function. One that has a value to return must return on every way through. The parameters are
taken as they are: whether they are in order is a matter of the tables. -/
def FunDef.check (g : Globals) (f : FunDef) : Check Unit := do
  Check.emit (.checking f.name f.returnType)
  let outcome ← f.body.check g f.returnType false (Scope.ofParams f.params)
  if !f.returnType.isVoid && !outcome.returns then
    throw (.missingReturn f.name f.returnType)

/-- Check the bodies of the functions of a program, in order. -/
def Program.checkBodies (g : Globals) (p : Program) : Check Unit :=
  p.funs.forM (FunDef.check g)

/-- Check a program; what it declares is the answer. -/
def Program.check (p : Program) : Check Globals := do
  let g ← p.globals
  p.checkBodies g
  return g

/-- The type of an expression that stands alone, where nothing is declared. -/
def Expr.typeOfClosed (e : Expr) : Check Ty :=
  e.typeOf {} ∅

end CoreC
