import CoreC.Typing.Expr

/-!
# Checking statements

`Stmt.check` finds the first fault of a statement, or says what follows from it: the scope of the statement behind it, and
whether it returns from the function on every way through.
-/

namespace CoreC

/-- What a checked statement leaves to those behind it. -/
structure Outcome where
  /-- The scope behind the statement. -/
  scope : Scope
  /-- Whether the statement returns from the function, so that nothing behind it is reached. -/
  returns : Bool

/-- A released value is a pointer to anything. -/
def Expr.checkFreed (g : Globals) (Γ : Scope) (pointer : Expr) : Check Unit := do
  Ty.expect .voidPointer (← pointer.typeOf g Γ)

/-- A condition is a truth value. -/
def Expr.checkCondition (g : Globals) (Γ : Scope) (condition : Expr) : Check Unit := do
  Ty.expect .bool (← condition.typeOf g Γ)

/-- Check a statement in a function of a return type, inside a loop or not. Declarations inside a branch or a loop are
not seen behind it, and a loop is never known to return. -/
def Stmt.check (g : Globals) (returnType : Ty) (inLoop : Bool) (Γ : Scope) : Stmt → Check Outcome
  | .expr value => do
    let _ ← value.typeOf g Γ
    return ⟨Γ, false⟩
  | .declare decl init => do
    if decl.ty.isVoid then
      throw (.voidVariable decl.name)
    Ty.expect decl.ty (← init.typeOf g Γ)
    Check.emit (.declared decl.name decl.ty)
    return ⟨Γ.extend decl, false⟩
  | .assign target value => do
    let targetType ← target.typeOf g Γ
    Ty.expect targetType (← value.typeOf g Γ)
    return ⟨Γ, false⟩
  | .ifElse condition thenBranch elseBranch => do
    condition.checkCondition g Γ
    let thenOutcome ← thenBranch.check g returnType inLoop Γ
    let elseOutcome ← elseBranch.check g returnType inLoop Γ
    return ⟨Γ, thenOutcome.returns && elseOutcome.returns⟩
  | .whileDo condition body => do
    condition.checkCondition g Γ
    let _ ← body.check g returnType true Γ
    return ⟨Γ, false⟩
  | .breakLoop => do
    unless inLoop do
      throw .breakOutsideLoop
    return ⟨Γ, false⟩
  | .continueLoop => do
    unless inLoop do
      throw .continueOutsideLoop
    return ⟨Γ, false⟩
  | .returnVoid => do
    Ty.expect returnType .void
    return ⟨Γ, true⟩
  | .returnValue value => do
    Ty.expect returnType (← value.typeOf g Γ)
    return ⟨Γ, true⟩
  | .free pointer => do
    pointer.checkFreed g Γ
    return ⟨Γ, false⟩
  | .seq first second => do
    let outcome ← first.check g returnType inLoop Γ
    if outcome.returns then
      throw .unreachableCode
    second.check g returnType inLoop outcome.scope

end CoreC
