import CoreC.Interchange.Shape
import CoreC.Json.Reader
import CoreC.Program

/-!
# Reading programs

Programs and expressions from their interchange form. A value is read or refused as a whole: there is one way to read it or
none. `Program.parse?` and `Expr.parse?` read texts.
-/

namespace CoreC

/-- A name is written as its text. -/
def Name.ofJson? {kind : NameKind} (j : Json) : Option (Name kind) :=
  j.text?.map Name.mk

/-- A list is an array, each of its elements in the form of an element. -/
def listOfJson? {α : Type} (element : Json → Option α) (j : Json) : Option (List α) :=
  j.elements?.bind (·.mapM element)

/-- A type, read from its interchange form. -/
def Ty.ofJson? (j : Json) : Option Ty :=
  match _h : j.variant? with
  | some ("Void", .null) => some .void
  | some ("Int", .null) => some .int
  | some ("Char", .null) => some .char
  | some ("Bool", .null) => some .bool
  | some ("Pointer", target) => (Ty.ofJson? target).map .pointer
  | some ("Structure", name) => (Name.ofJson? name).map .struct
  | _ => none
termination_by sizeOf j
decreasing_by exact Json.sizeOf_lt_of_variant? _h

/-- A declaration, read from its interchange form. -/
def Decl.ofJson? {kind : NameKind} (j : Json) : Option (Decl kind) :=
  match j.record? ["var_type", "name"] with
  | some [ty, name] => do return { ty := ← Ty.ofJson? ty, name := ← Name.ofJson? name }
  | _ => none

/-- An operator, read from its interchange form. -/
def BinaryOp.ofJson? (j : Json) : Option BinaryOp :=
  match j.variant? with
  | some ("Add", .null) => some .add
  | some ("Sub", .null) => some .sub
  | some ("Mul", .null) => some .mul
  | some ("Div", .null) => some .div
  | some ("Equal", .null) => some .equal
  | some ("Less", .null) => some .less
  | _ => none

/-- A place, read from its interchange form. -/
def Place.ofJson? (j : Json) : Option Place :=
  match _h : j.variant? with
  | some ("Variable", name) => (Name.ofJson? name).map .var
  | some ("FieldAccess", parts) =>
    match _hp : parts.record? ["base", "field"] with
    | some [base, name] => do return .field (← Place.ofJson? base) (← Name.ofJson? name)
    | _ => none
  | some ("Dereference", pointer) => (Place.ofJson? pointer).map .deref
  | _ => none
termination_by sizeOf j
decreasing_by
  · have := Json.sizeOf_lt_of_variant? _h
    have := Json.sizeOf_lt_of_record? _hp (v := base) (by simp)
    omega
  · exact Json.sizeOf_lt_of_variant? _h

/-- An expression, read from its interchange form. -/
def Expr.ofJson? (j : Json) : Option Expr :=
  match _h : j.variant? with
  | some ("IntLiteral", value) => value.int64?.map .int
  | some ("CharLiteral", value) => value.char?.map .char
  | some ("BoolLiteral", .bool value) => some (.bool value)
  | some ("Variable", name) => (Name.ofJson? name).map .var
  | some ("Malloc", size) => (Expr.ofJson? size).map .malloc
  | some ("Free", pointer) => (Expr.ofJson? pointer).map .free
  | some ("Sizeof", ty) => (Ty.ofJson? ty).map .sizeof
  | some ("Binary", parts) =>
    match _hp : parts.record? ["op", "left", "right"] with
    | some [op, left, right] => do
      return .binary (← BinaryOp.ofJson? op) (← Expr.ofJson? left) (← Expr.ofJson? right)
    | _ => none
  | some ("MakeStructure", parts) =>
    match _hp : parts.record? ["name", "arguments"] with
    | some [name, arguments] => do
      match _ha : arguments.elements? with
      | some arguments =>
        return .construct (← Name.ofJson? name) (← arguments.attach.mapM fun ⟨a, _⟩ => Expr.ofJson? a)
      | none => none
    | _ => none
  | some ("Call", parts) =>
    match _hp : parts.record? ["function", "arguments"] with
    | some [name, arguments] => do
      match _ha : arguments.elements? with
      | some arguments =>
        return .call (← Name.ofJson? name) (← arguments.attach.mapM fun ⟨a, _⟩ => Expr.ofJson? a)
      | none => none
    | _ => none
  | some ("Cast", parts) =>
    match _hp : parts.record? ["target_type", "operand"] with
    | some [target, operand] => do return .cast (← Ty.ofJson? target) (← Expr.ofJson? operand)
    | _ => none
  | some ("AddressOf", place) => (Place.ofJson? place).map .addressOf
  | some ("Dereference", pointer) => (Expr.ofJson? pointer).map .deref
  | some ("FieldAccess", parts) =>
    match _hp : parts.record? ["object", "field"] with
    | some [object, name] => do return .field (← Expr.ofJson? object) (← Name.ofJson? name)
    | _ => none
  | _ => none
termination_by sizeOf j
decreasing_by
  all_goals have hv := Json.sizeOf_lt_of_variant? _h
  any_goals exact hv
  any_goals
    have hr := fun v => Json.sizeOf_lt_of_record? (v := v) _hp
    simp only [List.mem_cons, List.not_mem_nil, or_false, forall_eq_or_imp, forall_eq] at hr
    first
    | omega
    | have ha := Json.sizeOf_lt_of_elements? _ha ‹_›
      omega

/-- A statement, read from its interchange form. -/
def Stmt.ofJson? (j : Json) : Option Stmt :=
  match _h : j.variant? with
  | some ("Expression", value) => (Expr.ofJson? value).map .expr
  | some ("VariableDeclaration", parts) =>
    match parts.record? ["declaration", "initializer"] with
    | some [decl, init] => do return .declare (← Decl.ofJson? decl) (← Expr.ofJson? init)
    | _ => none
  | some ("Assignment", parts) =>
    match parts.record? ["target", "value"] with
    | some [target, value] => do return .assign (← Place.ofJson? target) (← Expr.ofJson? value)
    | _ => none
  | some ("If", parts) =>
    match _hp : parts.record? ["condition", "then_stmt", "else_stmt"] with
    | some [condition, thenBranch, elseBranch] => do
      return .ifElse (← Expr.ofJson? condition) (← Stmt.ofJson? thenBranch) (← Stmt.ofJson? elseBranch)
    | _ => none
  | some ("While", parts) =>
    match _hp : parts.record? ["condition", "body"] with
    | some [condition, body] => do return .whileDo (← Expr.ofJson? condition) (← Stmt.ofJson? body)
    | _ => none
  | some ("Break", .null) => some .breakLoop
  | some ("Continue", .null) => some .continueLoop
  | some ("ReturnVoid", .null) => some .returnVoid
  | some ("Return", value) => (Expr.ofJson? value).map .returnValue
  | some ("Free", pointer) => (Expr.ofJson? pointer).map .free
  | some ("Sequence", both) =>
    match _he : both.elements? with
    | some [first, second] => do return .seq (← Stmt.ofJson? first) (← Stmt.ofJson? second)
    | _ => none
  | _ => none
termination_by sizeOf j
decreasing_by
  all_goals have hv := Json.sizeOf_lt_of_variant? _h
  any_goals
    have hr := fun v => Json.sizeOf_lt_of_record? (v := v) _hp
    simp only [List.mem_cons, List.not_mem_nil, or_false, forall_eq_or_imp, forall_eq] at hr
    omega
  all_goals
    have hr := fun e => Json.sizeOf_lt_of_elements? (e := e) _he
    simp only [List.mem_cons, List.not_mem_nil, or_false, forall_eq_or_imp, forall_eq] at hr
    omega

/-- The declaration of a structure, read from its interchange form. -/
def StructDecl.ofJson? (j : Json) : Option StructDecl :=
  match j.record? ["name", "fields"] with
  | some [name, fields] => do return { name := ← Name.ofJson? name, fields := ← listOfJson? Decl.ofJson? fields }
  | _ => none

/-- The definition of a function, read from its interchange form. -/
def FunDef.ofJson? (j : Json) : Option FunDef :=
  match j.record? ["return_type", "name", "parameters", "body"] with
  | some [returnType, name, params, body] => do
    return {
      returnType := ← Ty.ofJson? returnType
      name := ← Name.ofJson? name
      params := ← listOfJson? Decl.ofJson? params
      body := ← Stmt.ofJson? body }
  | _ => none

/-- A part of a program that may be left out, in which case it is empty. -/
def partOfJson? {α : Type} (element : Json → Option α) : Option Json → Option (List α)
  | some j => listOfJson? element j
  | none => some []

/-- A program, read from its interchange form. -/
def Program.ofJson? (j : Json) : Option Program :=
  match j.fields? ["structures", "functions"] with
  | some [structs, funs] => do
    return { structs := ← partOfJson? StructDecl.ofJson? structs, funs := ← partOfJson? FunDef.ofJson? funs }
  | _ => none

/-- The program a text holds. -/
def Program.parse? (text : String) : Option Program :=
  (Json.parse? text).bind Program.ofJson?

/-- The expression a text holds. -/
def Expr.parse? (text : String) : Option Expr :=
  (Json.parse? text).bind Expr.ofJson?

end CoreC
