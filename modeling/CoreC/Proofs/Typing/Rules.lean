import CoreC.Globals
import CoreC.Scope

/-!
# The typing rules

What it means for a program to be well-typed, said by rules and without a word on how one finds out. A rule that needs a
structure or a function asks only that the program declares it, wherever the declaration stands; nothing is said about
which of two faults comes first, because a program with a fault has no derivation at all.

There are four judgements: the type of an operation (`BinaryOp.HasType`), of a place (`Place.HasType`), of an expression
(`Expr.HasType`, with its arguments `Expr.HaveTypes`), and what a statement does to the scope and whether it returns
(`Stmt.Typed`). `Program.WellTyped` puts them together.
-/

namespace CoreC

/-! ## Expressions and places -/

/-- The type of an operation on operands of two types. -/
inductive BinaryOp.HasType : BinaryOp → Ty → Ty → Ty → Prop where
  | addInt : HasType .add .int .int .int
  | addPointer (target : Ty) : HasType .add (.pointer target) .int (.pointer target)
  | sub : HasType .sub .int .int .int
  | mul : HasType .mul .int .int .int
  | div : HasType .div .int .int .int
  | equal (T : Ty) : HasType .equal T T .bool
  | less : HasType .less .int .int .bool

/-- A structure of the program has a field of a type. -/
def Program.HasField (p : Program) (s : StructName) (f : FieldName) (T : Ty) : Prop :=
  ∃ decl ∈ p.structs, decl.name = s ∧ ⟨T, f⟩ ∈ decl.fields

/-- The type of what a place holds. -/
inductive Place.HasType (p : Program) (Γ : Scope) : Place → Ty → Prop where
  | var {x : VarName} {T : Ty} : Γ[x]? = some T → HasType p Γ (.var x) T
  | field {base : Place} {s : StructName} {f : FieldName} {T : Ty} :
      HasType p Γ base (.struct s) → p.HasField s f T → HasType p Γ (.field base f) T
  | deref {pointer : Place} {T : Ty} : HasType p Γ pointer (.pointer T) → HasType p Γ (.deref pointer) T

mutual

/-- The type of an expression. -/
inductive Expr.HasType (p : Program) (Γ : Scope) : Expr → Ty → Prop where
  | int (value : Int64) : HasType p Γ (.int value) .int
  | char (value : Char) : HasType p Γ (.char value) .char
  | bool (value : Bool) : HasType p Γ (.bool value) .bool
  | var {x : VarName} {T : Ty} : Γ[x]? = some T → HasType p Γ (.var x) T
  | malloc {size : Expr} : HasType p Γ size .int → HasType p Γ (.malloc size) (.pointer .void)
  | free {pointer : Expr} : HasType p Γ pointer (.pointer .void) → HasType p Γ (.free pointer) .void
  | sizeof (T : Ty) : HasType p Γ (.sizeof T) .int
  | binary {op : BinaryOp} {left right : Expr} {L R T : Ty} :
      HasType p Γ left L → HasType p Γ right R → op.HasType L R T → HasType p Γ (.binary op left right) T
  | construct {decl : StructDecl} {arguments : List Expr} :
      decl ∈ p.structs → HaveTypes p Γ arguments (decl.fields.map Decl.ty) →
      HasType p Γ (.construct decl.name arguments) (.struct decl.name)
  | call {f : FunDef} {arguments : List Expr} :
      f ∈ p.funs → HaveTypes p Γ arguments (f.params.map Decl.ty) → HasType p Γ (.call f.name arguments) f.returnType
  | cast (target : Ty) {operand : Expr} {T : Ty} : HasType p Γ operand T → HasType p Γ (.cast target operand) target
  | addressOf {place : Place} {T : Ty} : place.HasType p Γ T → HasType p Γ (.addressOf place) (.pointer T)
  | deref {pointer : Expr} {T : Ty} : HasType p Γ pointer (.pointer T) → HasType p Γ (.deref pointer) T
  | field {object : Expr} {s : StructName} {f : FieldName} {T : Ty} :
      HasType p Γ object (.struct s) → p.HasField s f T → HasType p Γ (.field object f) T

/-- The types of arguments, one for each. -/
inductive Expr.HaveTypes (p : Program) (Γ : Scope) : List Expr → List Ty → Prop where
  | nil : HaveTypes p Γ [] []
  | cons {e : Expr} {arguments : List Expr} {T : Ty} {types : List Ty} :
      HasType p Γ e T → HaveTypes p Γ arguments types → HaveTypes p Γ (e :: arguments) (T :: types)

end

/-! ## Statements -/

/-- A statement in a function of a return type, inside a loop or not: the scope it stands in, the scope behind it, and
whether it returns on every way through. -/
inductive Stmt.Typed (p : Program) (returnType : Ty) : Bool → Scope → Stmt → Scope → Bool → Prop where
  | expr {inLoop : Bool} {Γ : Scope} {value : Expr} {T : Ty} :
      value.HasType p Γ T → Typed p returnType inLoop Γ (.expr value) Γ false
  | declare {inLoop : Bool} {Γ : Scope} {x : VarName} {T : Ty} {init : Expr} :
      T ≠ .void → init.HasType p Γ T → Typed p returnType inLoop Γ (.declare ⟨T, x⟩ init) (Γ.insert x T) false
  | assign {inLoop : Bool} {Γ : Scope} {target : Place} {value : Expr} {T : Ty} :
      target.HasType p Γ T → value.HasType p Γ T → Typed p returnType inLoop Γ (.assign target value) Γ false
  | ifElse {inLoop : Bool} {Γ Γ₁ Γ₂ : Scope} {condition : Expr} {thenBranch elseBranch : Stmt} {r₁ r₂ : Bool} :
      condition.HasType p Γ .bool → Typed p returnType inLoop Γ thenBranch Γ₁ r₁ →
      Typed p returnType inLoop Γ elseBranch Γ₂ r₂ →
      Typed p returnType inLoop Γ (.ifElse condition thenBranch elseBranch) Γ (r₁ && r₂)
  | whileDo {inLoop : Bool} {Γ Γ₁ : Scope} {condition : Expr} {body : Stmt} {r : Bool} :
      condition.HasType p Γ .bool → Typed p returnType true Γ body Γ₁ r →
      Typed p returnType inLoop Γ (.whileDo condition body) Γ false
  | breakLoop {Γ : Scope} : Typed p returnType true Γ .breakLoop Γ false
  | continueLoop {Γ : Scope} : Typed p returnType true Γ .continueLoop Γ false
  | returnVoid {inLoop : Bool} {Γ : Scope} : returnType = .void → Typed p returnType inLoop Γ .returnVoid Γ true
  | returnValue {inLoop : Bool} {Γ : Scope} {value : Expr} :
      value.HasType p Γ returnType → Typed p returnType inLoop Γ (.returnValue value) Γ true
  | free {inLoop : Bool} {Γ : Scope} {pointer : Expr} :
      pointer.HasType p Γ (.pointer .void) → Typed p returnType inLoop Γ (.free pointer) Γ false
  | seq {inLoop : Bool} {Γ Γ₁ Γ₂ : Scope} {first second : Stmt} {r : Bool} :
      Typed p returnType inLoop Γ first Γ₁ false → Typed p returnType inLoop Γ₁ second Γ₂ r →
      Typed p returnType inLoop Γ (.seq first second) Γ₂ r

/-! ## Programs -/

/-- A group of declarations in order: no two of one name, and none `void`. -/
def Decl.Valid {kind : NameKind} (decls : List (Decl kind)) : Prop :=
  (decls.map Decl.name).Nodup ∧ ∀ d ∈ decls, d.ty ≠ .void

/-- The scope that has the parameters of a function, each with its type, and nothing else. -/
def Scope.Binds (Γ : Scope) (params : List (Decl .var)) : Prop :=
  ∀ x T, Γ[x]? = some T ↔ ⟨T, x⟩ ∈ params

/-- The body of a function is derivable from its parameters outside any loop, and it returns if there is a value to
return. -/
def FunDef.WellTyped (p : Program) (f : FunDef) : Prop :=
  ∃ Γ Γ' returns, Scope.Binds Γ f.params ∧ f.body.Typed p f.returnType false Γ Γ' returns ∧
    (f.returnType ≠ .void → returns = true)

/-- A well-typed program. -/
structure Program.WellTyped (p : Program) : Prop where
  /-- No two structures have one name. -/
  structNames : (p.structs.map StructDecl.name).Nodup
  /-- The fields of each structure are in order. -/
  fields : ∀ s ∈ p.structs, Decl.Valid s.fields
  /-- No two functions have one name. -/
  funNames : (p.funs.map FunDef.name).Nodup
  /-- The parameters of each function are in order. -/
  params : ∀ f ∈ p.funs, Decl.Valid f.params
  /-- The body of each function has a derivation. -/
  bodies : ∀ f ∈ p.funs, f.WellTyped p

end CoreC
