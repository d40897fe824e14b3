import Std.Data.ExtTreeMap

/-!
# Names

A name is any text, the empty one included. The names of variables, structures, functions and fields are of different
types, so one cannot stand where another is meant. Names are ordered by their code points (`Name.sort`), which is the
order every listing of a table has.
-/

namespace CoreC

/-- What a name names. -/
inductive NameKind where
  | var
  | struct
  | func
  | field
  deriving DecidableEq, Repr

/-- A name of a kind of thing. -/
structure Name (kind : NameKind) where
  text : String
  deriving DecidableEq, Repr

/-- The name of a variable or of a parameter. -/
abbrev VarName := Name .var

/-- The name of a structure. -/
abbrev StructName := Name .struct

/-- The name of a function. -/
abbrev FunName := Name .func

/-- The name of a field of a structure. -/
abbrev FieldName := Name .field

namespace Name

variable {kind : NameKind}

instance : ToString (Name kind) := ⟨Name.text⟩

/-- Names are ordered by their code points. -/
instance : Ord (Name kind) := ⟨fun a b => compare a.text b.text⟩

theorem compare_eq (a b : Name kind) : compare a b = compare a.text b.text := rfl

instance : Std.TransOrd (Name kind) where
  eq_swap := by
    intro a b
    rw [compare_eq, compare_eq, Std.OrientedOrd.eq_swap]
  isLE_trans := by
    intro a b c
    simp only [compare_eq]
    exact Std.TransOrd.isLE_trans

instance : Std.LawfulEqOrd (Name kind) where
  eq_of_compare := by
    rintro ⟨a⟩ ⟨b⟩ h
    rw [compare_eq, Std.LawfulEqOrd.compare_eq_iff_eq] at h
    exact congrArg Name.mk h

/-- The field that is called like a variable. -/
def asField (x : VarName) : FieldName := ⟨x.text⟩

/-- A list of names in order, with its repetitions. -/
def sort (names : List (Name kind)) : List (Name kind) :=
  names.mergeSort fun a b => (compare a b).isLE

/-- A list of names in order, each of them once. -/
def sortDistinct (names : List (Name kind)) : List (Name kind) :=
  sort names.eraseDups

/-- The last of some names in their order. -/
def greatest? (names : List (Name kind)) : Option (Name kind) :=
  (sort names).getLast?

end Name

end CoreC
