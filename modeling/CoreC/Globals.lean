import CoreC.Check
import CoreC.Program

/-!
# What a program declares

The tables of structures and functions of a program. They are complete before any body is checked, so declarations may
refer to each other in any order. A table is built entry by entry and building it fails at the first entry that is at
fault: a name that is taken, then the first field or parameter that is `void` or repeats a name.
-/

namespace CoreC

/-- The structures of a program, with their fields in the order of declaration. -/
abbrev StructTable := Std.ExtTreeMap StructName (List (Decl .field))

/-- The types a function takes and the one it returns. -/
structure Signature where
  params : List Ty
  returnType : Ty
  deriving DecidableEq, Repr

/-- The functions of a program, with their signatures. -/
abbrev FunTable := Std.ExtTreeMap FunName Signature

/-- Everything a program declares. -/
structure Globals where
  structs : StructTable := ∅
  funs : FunTable := ∅

/-- The declarations of a group (the fields of a structure, the parameters of a function), checked in order against those
before them: none is `void`, and none has the name of an earlier one. Of one declaration at fault in both ways the type is
reported. -/
def Decl.validate {kind : NameKind} (onVoid onDuplicate : Name kind → TypeError) (seen : List (Name kind)) :
    List (Decl kind) → Except TypeError Unit
  | [] => .ok ()
  | d :: rest =>
    if d.ty.isVoid then .error (onVoid d.name)
    else if d.name ∈ seen then .error (onDuplicate d.name)
    else validate onVoid onDuplicate (d.name :: seen) rest

namespace StructTable

/-- Add a field of a structure behind those there are, which is checked like `Decl.validate` checks a declaration. -/
def addField (struct : StructName) (fields : List (Decl .field)) (field : Decl .field) :
    Except TypeError (List (Decl .field)) :=
  if field.ty.isVoid then .error (.voidField struct field.name)
  else if field.name ∈ fields.map Decl.name then .error (.duplicateField struct field.name)
  else .ok (fields ++ [field])

/-- The fields of a structure, added one by one. -/
def collectFields (decl : StructDecl) : Except TypeError (List (Decl .field)) :=
  decl.fields.foldlM (addField decl.name) []

/-- Enter a structure. -/
def register (table : StructTable) (decl : StructDecl) : Check StructTable := do
  if decl.name ∈ table then
    throw (.duplicateStruct decl.name)
  let fields ← collectFields decl
  Check.emit (.structRegistered decl.name fields.length)
  return table.insert decl.name fields

/-- The table of some structures. -/
def build (decls : List StructDecl) : Check StructTable :=
  decls.foldlM register ∅

/-- The fields of a structure. -/
def fields (table : StructTable) (name : StructName) : Except TypeError (List (Decl .field)) :=
  match table[name]? with
  | some fields => .ok fields
  | none => .error (.unknownStruct name)

/-- The type of a field of a structure. -/
def fieldType (table : StructTable) (name : StructName) (field : FieldName) : Except TypeError Ty := do
  match (← table.fields name).find? (·.name = field) with
  | some decl => return decl.ty
  | none => throw (.unknownField name field)

end StructTable

/-- The signature of a function. -/
def FunDef.signature (f : FunDef) : Signature where
  params := f.params.map Decl.ty
  returnType := f.returnType

namespace FunTable

/-- Enter a function. -/
def register (table : FunTable) (f : FunDef) : Check FunTable := do
  if f.name ∈ table then
    throw (.duplicateFunction f.name)
  Decl.validate (.voidParam f.name) (.duplicateParam f.name) [] f.params
  Check.emit (.funRegistered f.name f.params.length)
  return table.insert f.name f.signature

/-- The table of some functions. -/
def build (funs : List FunDef) : Check FunTable :=
  funs.foldlM register ∅

/-- The signature of a function. -/
def signature (table : FunTable) (name : FunName) : Except TypeError Signature :=
  match table[name]? with
  | some signature => .ok signature
  | none => .error (.unknownFunction name)

end FunTable

/-- Everything a program declares, the structures first. -/
def Program.globals (p : Program) : Check Globals := do
  let structs ← StructTable.build p.structs
  let funs ← FunTable.build p.funs
  Check.emit (.collected structs.size funs.size)
  return { structs, funs }

end CoreC
