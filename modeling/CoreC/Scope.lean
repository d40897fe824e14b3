import CoreC.TypeError

/-!
# Scopes

A scope gives types to variables. Extending a scope makes a new one, in which a variable that was there already has its new
type.
-/

namespace CoreC

/-- The variables that can be used at some point of a program, with their types. -/
abbrev Scope := Std.ExtTreeMap VarName Ty

namespace Scope

/-- A scope with one more variable, or with a new type for it. -/
def extend (Γ : Scope) (decl : Decl .var) : Scope :=
  Γ.insert decl.name decl.ty

/-- The scope of the parameters of a function; of two parameters of one name the later one counts. -/
def ofParams (params : List (Decl .var)) : Scope :=
  params.foldl extend ∅

/-- The type of a variable. -/
def lookup (Γ : Scope) (x : VarName) : Except TypeError Ty :=
  match Γ[x]? with
  | some ty => .ok ty
  | none => .error (.unboundVariable x)

end Scope

end CoreC
