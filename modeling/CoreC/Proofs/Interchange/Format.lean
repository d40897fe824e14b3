import CoreC.Json.Basic
import CoreC.Program

/-!
# The interchange form

Which JSON values stand for which parts of a program, as relations and without a word on how they are read.

The shapes come first: strings with a text, integers of 64 bits, variants with a payload (`Json.Tagged`) and without one
(`Json.Bare`), and records (`Json.Record`), which are objects with their fields in any order and other members among them, or
arrays of the fields in their order. In a program, and nowhere else, fields may be left out (`Json.Parts`).

Then each kind of syntax has its rules, one for each alternative. `p.RepresentedBy j` says that the value `j` stands for `p`.
-/

namespace CoreC

namespace Json

/-! ## Texts and numbers -/

/-- The characters that the pieces of a string spell: two halves of a surrogate pair are one character, and a half that
stands alone spells nothing. -/
inductive Spells : List Piece → List Char → Prop where
  | nil : Spells [] []
  | char {c : Char} {ps : List Piece} {cs : List Char} : Spells ps cs → Spells (.char c :: ps) (c :: cs)
  | pair {high low : Fin 1024} {ps : List Piece} {cs : List Char} :
      Spells ps cs → Spells (.high high :: .low low :: ps) (Piece.pair high low :: cs)

/-- A string with a text. -/
inductive IsText : Json → String → Prop where
  | mk {ps : List Piece} {text : String} : Spells ps text.toList → IsText (.string ps) text

/-- A string of one character. -/
inductive IsChar : Json → Char → Prop where
  | mk {ps : List Piece} {c : Char} : Spells ps [c] → IsChar (.string ps) c

/-- An integer of 64 bits, in sign and magnitude. Zero has no minus. -/
inductive IsInt64 : Json → Int64 → Prop where
  | nonneg {n : Nat} {i : Int64} : i.toInt = n → IsInt64 (.number (.integer false n)) i
  | negative {n : Nat} {i : Int64} : 0 < n → i.toInt = -n → IsInt64 (.number (.integer true n)) i

/-! ## Variants and records -/

/-- A variant with a payload: an object with one member, whose key is the tag. -/
inductive Tagged : Json → String → Json → Prop where
  | mk {key : List Piece} {tag : String} {payload : Json} :
      Spells key tag.toList → Tagged (.object [(key, payload)]) tag payload

/-- A variant without a payload: the tag alone, or under the tag nothing but `null`. -/
inductive Bare : Json → String → Prop where
  | alone {j : Json} {tag : String} : j.IsText tag → Bare j tag
  | null {j : Json} {tag : String} : j.Tagged tag .null → Bare j tag

/-- The members that hold the fields of a record, each under its name; a field that is left out has none. -/
inductive Members : List (String × Option Json) → List (List Piece × Json) → Prop where
  | nil : Members [] []
  | given {name : String} {key : List Piece} {value : Json} {fields : List (String × Option Json)}
      {ms : List (List Piece × Json)} :
      Spells key name.toList → Members fields ms → Members ((name, some value) :: fields) ((key, value) :: ms)
  | absent {name : String} {fields : List (String × Option Json)} {ms : List (List Piece × Json)} :
      Members fields ms → Members ((name, none) :: fields) ms

/-- A group of named fields, some of which may be left out: an object that has the fields, each of them once, in any order
and among any members under other keys; or an array of the fields in their order, in which only the last can be left out. -/
inductive Parts : Json → List (String × Option Json) → Prop where
  | object {ms named others : List (List Piece × Json)} {fields : List (String × Option Json)} :
      ms.Perm (named ++ others) → Members fields named →
      (∀ m ∈ others, ∃ key : String, Spells m.1 key.toList ∧ ∀ field ∈ fields, field.1 ≠ key) →
      Parts (.object ms) fields
  | array {es : List Json} {fields : List (String × Option Json)} (missing : Nat) :
      fields.map Prod.snd = es.map some ++ List.replicate missing none → Parts (.array es) fields

/-- A group of named fields, none of which is left out. -/
def Record (j : Json) (fields : List (String × Json)) : Prop :=
  j.Parts (fields.map fun (name, value) => (name, some value))

/-! ## Lists -/

/-- An array that stands for a list: its elements stand for the members of the list, one for one. -/
inductive Listed {α : Type} (R : α → Json → Prop) : List α → Json → Prop where
  | nil : Listed R [] (.array [])
  | cons {a : α} {e : Json} {as : List α} {es : List Json} :
      R a e → Listed R as (.array es) → Listed R (a :: as) (.array (e :: es))

/-- A field that stands for a list, the empty one if it is left out. -/
inductive ListedOrAbsent {α : Type} (R : α → Json → Prop) : List α → Option Json → Prop where
  | given {as : List α} {j : Json} : Listed R as j → ListedOrAbsent R as (some j)
  | absent : ListedOrAbsent R [] none

end Json

/-! ## Types, places and expressions -/

/-- A name is represented by its text. -/
def Name.RepresentedBy {kind : NameKind} (name : Name kind) (j : Json) : Prop :=
  j.IsText name.text

/-- The values that represent a type. -/
inductive Ty.RepresentedBy : Ty → Json → Prop where
  | void {j : Json} : j.Bare "Void" → Ty.RepresentedBy .void j
  | int {j : Json} : j.Bare "Int" → Ty.RepresentedBy .int j
  | char {j : Json} : j.Bare "Char" → Ty.RepresentedBy .char j
  | bool {j : Json} : j.Bare "Bool" → Ty.RepresentedBy .bool j
  | pointer {j v : Json} {target : Ty} :
      j.Tagged "Pointer" v → target.RepresentedBy v → Ty.RepresentedBy (.pointer target) j
  | struct {j v : Json} {name : StructName} :
      j.Tagged "Structure" v → name.RepresentedBy v → Ty.RepresentedBy (.struct name) j

/-- The values that represent a declaration. -/
inductive Decl.RepresentedBy {kind : NameKind} : Decl kind → Json → Prop where
  | mk {j ty name : Json} {decl : Decl kind} :
      j.Record [("var_type", ty), ("name", name)] → decl.ty.RepresentedBy ty → decl.name.RepresentedBy name →
      Decl.RepresentedBy decl j

/-- The tag of an operator. -/
def BinaryOp.tag : BinaryOp → String
  | .add => "Add"
  | .sub => "Sub"
  | .mul => "Mul"
  | .div => "Div"
  | .equal => "Equal"
  | .less => "Less"

/-- An operator is represented by its tag. -/
def BinaryOp.RepresentedBy (op : BinaryOp) (j : Json) : Prop :=
  j.Bare op.tag

/-- The values that represent a place. -/
inductive Place.RepresentedBy : Place → Json → Prop where
  | var {j v : Json} {name : VarName} :
      j.Tagged "Variable" v → name.RepresentedBy v → Place.RepresentedBy (.var name) j
  | field {j v b n : Json} {base : Place} {name : FieldName} :
      j.Tagged "FieldAccess" v → v.Record [("base", b), ("field", n)] →
      base.RepresentedBy b → name.RepresentedBy n → Place.RepresentedBy (.field base name) j
  | deref {j v : Json} {pointer : Place} :
      j.Tagged "Dereference" v → pointer.RepresentedBy v → Place.RepresentedBy (.deref pointer) j

/-- The values that represent an expression. -/
inductive Expr.RepresentedBy : Expr → Json → Prop where
  | int {j v : Json} {value : Int64} :
      j.Tagged "IntLiteral" v → v.IsInt64 value → Expr.RepresentedBy (.int value) j
  | char {j v : Json} {value : Char} :
      j.Tagged "CharLiteral" v → v.IsChar value → Expr.RepresentedBy (.char value) j
  | bool {j : Json} {value : Bool} :
      j.Tagged "BoolLiteral" (.bool value) → Expr.RepresentedBy (.bool value) j
  | var {j v : Json} {name : VarName} :
      j.Tagged "Variable" v → name.RepresentedBy v → Expr.RepresentedBy (.var name) j
  | malloc {j v : Json} {size : Expr} :
      j.Tagged "Malloc" v → Expr.RepresentedBy size v → Expr.RepresentedBy (.malloc size) j
  | free {j v : Json} {pointer : Expr} :
      j.Tagged "Free" v → Expr.RepresentedBy pointer v → Expr.RepresentedBy (.free pointer) j
  | sizeof {j v : Json} {ty : Ty} :
      j.Tagged "Sizeof" v → ty.RepresentedBy v → Expr.RepresentedBy (.sizeof ty) j
  | binary {j v o l r : Json} {op : BinaryOp} {left right : Expr} :
      j.Tagged "Binary" v → v.Record [("op", o), ("left", l), ("right", r)] →
      op.RepresentedBy o → Expr.RepresentedBy left l → Expr.RepresentedBy right r →
      Expr.RepresentedBy (.binary op left right) j
  | construct {j v n a : Json} {name : StructName} {arguments : List Expr} :
      j.Tagged "MakeStructure" v → v.Record [("name", n), ("arguments", a)] →
      name.RepresentedBy n → Json.Listed Expr.RepresentedBy arguments a →
      Expr.RepresentedBy (.construct name arguments) j
  | call {j v n a : Json} {name : FunName} {arguments : List Expr} :
      j.Tagged "Call" v → v.Record [("function", n), ("arguments", a)] →
      name.RepresentedBy n → Json.Listed Expr.RepresentedBy arguments a →
      Expr.RepresentedBy (.call name arguments) j
  | cast {j v t o : Json} {target : Ty} {operand : Expr} :
      j.Tagged "Cast" v → v.Record [("target_type", t), ("operand", o)] →
      target.RepresentedBy t → Expr.RepresentedBy operand o → Expr.RepresentedBy (.cast target operand) j
  | addressOf {j v : Json} {place : Place} :
      j.Tagged "AddressOf" v → place.RepresentedBy v → Expr.RepresentedBy (.addressOf place) j
  | deref {j v : Json} {pointer : Expr} :
      j.Tagged "Dereference" v → Expr.RepresentedBy pointer v → Expr.RepresentedBy (.deref pointer) j
  | field {j v o n : Json} {object : Expr} {name : FieldName} :
      j.Tagged "FieldAccess" v → v.Record [("object", o), ("field", n)] →
      Expr.RepresentedBy object o → name.RepresentedBy n → Expr.RepresentedBy (.field object name) j

/-! ## Statements and programs -/

/-- The values that represent a statement. -/
inductive Stmt.RepresentedBy : Stmt → Json → Prop where
  | expr {j v : Json} {value : Expr} :
      j.Tagged "Expression" v → value.RepresentedBy v → Stmt.RepresentedBy (.expr value) j
  | declare {j v d i : Json} {decl : Decl .var} {init : Expr} :
      j.Tagged "VariableDeclaration" v → v.Record [("declaration", d), ("initializer", i)] →
      decl.RepresentedBy d → init.RepresentedBy i → Stmt.RepresentedBy (.declare decl init) j
  | assign {j v t e : Json} {target : Place} {value : Expr} :
      j.Tagged "Assignment" v → v.Record [("target", t), ("value", e)] →
      target.RepresentedBy t → value.RepresentedBy e → Stmt.RepresentedBy (.assign target value) j
  | ifElse {j v c t e : Json} {condition : Expr} {thenBranch elseBranch : Stmt} :
      j.Tagged "If" v → v.Record [("condition", c), ("then_stmt", t), ("else_stmt", e)] →
      condition.RepresentedBy c → thenBranch.RepresentedBy t → elseBranch.RepresentedBy e →
      Stmt.RepresentedBy (.ifElse condition thenBranch elseBranch) j
  | whileDo {j v c b : Json} {condition : Expr} {body : Stmt} :
      j.Tagged "While" v → v.Record [("condition", c), ("body", b)] →
      condition.RepresentedBy c → body.RepresentedBy b → Stmt.RepresentedBy (.whileDo condition body) j
  | breakLoop {j : Json} : j.Bare "Break" → Stmt.RepresentedBy .breakLoop j
  | continueLoop {j : Json} : j.Bare "Continue" → Stmt.RepresentedBy .continueLoop j
  | returnVoid {j : Json} : j.Bare "ReturnVoid" → Stmt.RepresentedBy .returnVoid j
  | returnValue {j v : Json} {value : Expr} :
      j.Tagged "Return" v → value.RepresentedBy v → Stmt.RepresentedBy (.returnValue value) j
  | free {j v : Json} {pointer : Expr} :
      j.Tagged "Free" v → pointer.RepresentedBy v → Stmt.RepresentedBy (.free pointer) j
  | seq {j a b : Json} {first second : Stmt} :
      j.Tagged "Sequence" (.array [a, b]) → first.RepresentedBy a → second.RepresentedBy b →
      Stmt.RepresentedBy (.seq first second) j

/-- The values that represent the declaration of a structure. -/
inductive StructDecl.RepresentedBy : StructDecl → Json → Prop where
  | mk {j name fields : Json} {decl : StructDecl} :
      j.Record [("name", name), ("fields", fields)] → decl.name.RepresentedBy name →
      Json.Listed Decl.RepresentedBy decl.fields fields → StructDecl.RepresentedBy decl j

/-- The values that represent the definition of a function. -/
inductive FunDef.RepresentedBy : FunDef → Json → Prop where
  | mk {j returnType name params body : Json} {f : FunDef} :
      j.Record [("return_type", returnType), ("name", name), ("parameters", params), ("body", body)] →
      f.returnType.RepresentedBy returnType → f.name.RepresentedBy name →
      Json.Listed Decl.RepresentedBy f.params params → f.body.RepresentedBy body → FunDef.RepresentedBy f j

/-- The values that represent a program; each of its two lists may be left out. -/
inductive Program.RepresentedBy : Program → Json → Prop where
  | mk {j : Json} {structs funs : Option Json} {p : Program} :
      j.Parts [("structures", structs), ("functions", funs)] →
      Json.ListedOrAbsent StructDecl.RepresentedBy p.structs structs →
      Json.ListedOrAbsent FunDef.RepresentedBy p.funs funs → Program.RepresentedBy p j

end CoreC
