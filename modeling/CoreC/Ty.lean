import CoreC.Name

/-!
# Types

The types of the language and how they are shown. Two types are the same only if they are built alike; two different ones
can be shown alike, because a structure may have any name.
-/

namespace CoreC

/-- A type. -/
inductive Ty where
  | void
  | int
  | char
  | bool
  | pointer (target : Ty)
  | struct (name : StructName)
  deriving DecidableEq, Repr

namespace Ty

/-- The type of a pointer to anything, which is what an allocation gives and a release takes. -/
def voidPointer : Ty := .pointer .void

/-- Whether a type is `void`, the type of what has no value. -/
def isVoid : Ty → Bool
  | .void => true
  | _ => false

/-- The name of a structure type. -/
def structName? : Ty → Option StructName
  | .struct name => some name
  | _ => none

/-- How a type is shown. -/
def display : Ty → String
  | .void => "void"
  | .int => "int"
  | .char => "char"
  | .bool => "bool"
  | .pointer target => target.display ++ "*"
  | .struct name => "struct " ++ name.text

instance : ToString Ty := ⟨Ty.display⟩

end Ty

/-- A declaration of a name of some kind with a type: a variable, a parameter or a field. -/
structure Decl (kind : NameKind) where
  ty : Ty
  name : Name kind
  deriving DecidableEq, Repr

end CoreC
