import Mathlib.Logic.Function.Basic
import CoreC.Globals

/-!
# Renaming

A renaming gives every name a new text: one map of texts for each kind of name, each of them injective. The four maps have
nothing to do with each other, so a renaming may tell apart names that had one text, and give one text to names of
different kinds. It is carried through types, declarations, programs and faults name by name and changes nothing else.
-/

namespace CoreC

/-- New texts for names, kind by kind; different names of one kind stay different. -/
structure Renaming where
  text : NameKind → String → String
  injective : ∀ kind, Function.Injective (text kind)

/-- The renaming that changes nothing. -/
def Renaming.keep : Renaming where
  text _ text := text
  injective _ := Function.injective_id

/-! ## Names and types -/

/-- A name with its new text. -/
def Name.rename {kind : NameKind} (ρ : Renaming) (name : Name kind) : Name kind :=
  ⟨ρ.text kind name.text⟩

/-- A type with its structure renamed. -/
def Ty.rename (ρ : Renaming) : Ty → Ty
  | .void => .void
  | .int => .int
  | .char => .char
  | .bool => .bool
  | .pointer target => .pointer (target.rename ρ)
  | .struct name => .struct (name.rename ρ)

/-- A declaration with its type and its name renamed. -/
def Decl.rename {kind : NameKind} (ρ : Renaming) (decl : Decl kind) : Decl kind :=
  ⟨decl.ty.rename ρ, decl.name.rename ρ⟩

/-! ## Programs -/

/-- A place with its names renamed. -/
def Place.rename (ρ : Renaming) : Place → Place
  | .var x => .var (x.rename ρ)
  | .field base f => .field (base.rename ρ) (f.rename ρ)
  | .deref pointer => .deref (pointer.rename ρ)

mutual

/-- An expression with its names renamed. -/
def Expr.rename (ρ : Renaming) : Expr → Expr
  | .int value => .int value
  | .char value => .char value
  | .bool value => .bool value
  | .var x => .var (x.rename ρ)
  | .malloc size => .malloc (size.rename ρ)
  | .free pointer => .free (pointer.rename ρ)
  | .sizeof ty => .sizeof (ty.rename ρ)
  | .binary op left right => .binary op (left.rename ρ) (right.rename ρ)
  | .construct name arguments => .construct (name.rename ρ) (Expr.listRename ρ arguments)
  | .call name arguments => .call (name.rename ρ) (Expr.listRename ρ arguments)
  | .cast target operand => .cast (target.rename ρ) (operand.rename ρ)
  | .addressOf place => .addressOf (place.rename ρ)
  | .deref pointer => .deref (pointer.rename ρ)
  | .field object f => .field (object.rename ρ) (f.rename ρ)

/-- Some expressions with their names renamed. -/
def Expr.listRename (ρ : Renaming) : List Expr → List Expr
  | [] => []
  | e :: es => e.rename ρ :: Expr.listRename ρ es

end

/-- A statement with its names renamed. -/
def Stmt.rename (ρ : Renaming) : Stmt → Stmt
  | .expr value => .expr (value.rename ρ)
  | .declare decl init => .declare (decl.rename ρ) (init.rename ρ)
  | .assign target value => .assign (target.rename ρ) (value.rename ρ)
  | .ifElse condition thenBranch elseBranch =>
    .ifElse (condition.rename ρ) (thenBranch.rename ρ) (elseBranch.rename ρ)
  | .whileDo condition body => .whileDo (condition.rename ρ) (body.rename ρ)
  | .breakLoop => .breakLoop
  | .continueLoop => .continueLoop
  | .returnVoid => .returnVoid
  | .returnValue value => .returnValue (value.rename ρ)
  | .free pointer => .free (pointer.rename ρ)
  | .seq first second => .seq (first.rename ρ) (second.rename ρ)

/-- The declaration of a structure with its names renamed. -/
def StructDecl.rename (ρ : Renaming) (decl : StructDecl) : StructDecl where
  name := decl.name.rename ρ
  fields := decl.fields.map (Decl.rename ρ)

/-- The definition of a function with its names renamed. -/
def FunDef.rename (ρ : Renaming) (f : FunDef) : FunDef where
  returnType := f.returnType.rename ρ
  name := f.name.rename ρ
  params := f.params.map (Decl.rename ρ)
  body := f.body.rename ρ

/-- A program with its names renamed. -/
def Program.rename (ρ : Renaming) (p : Program) : Program where
  structs := p.structs.map (StructDecl.rename ρ)
  funs := p.funs.map (FunDef.rename ρ)

/-! ## Answers -/

/-- A signature with its types renamed. -/
def Signature.rename (ρ : Renaming) (signature : Signature) : Signature where
  params := signature.params.map (Ty.rename ρ)
  returnType := signature.returnType.rename ρ

/-- A callee renamed as what it is. -/
def Callee.rename (ρ : Renaming) : Callee → Callee
  | .struct name => .struct (name.rename ρ)
  | .func name => .func (name.rename ρ)

/-- A fault with every name in it renamed as what it is, and every type with it. -/
def TypeError.rename (ρ : Renaming) : TypeError → TypeError
  | .unboundVariable name => .unboundVariable (name.rename ρ)
  | .typeMismatch expected found => .typeMismatch (expected.rename ρ) (found.rename ρ)
  | .arityMismatch callee expected found => .arityMismatch (callee.rename ρ) expected found
  | .unknownFunction name => .unknownFunction (name.rename ρ)
  | .unknownStruct name => .unknownStruct (name.rename ρ)
  | .unknownField struct field => .unknownField (struct.rename ρ) (field.rename ρ)
  | .notAPointer found => .notAPointer (found.rename ρ)
  | .notAStruct found => .notAStruct (found.rename ρ)
  | .invalidOperand op operand => .invalidOperand op (operand.rename ρ)
  | .duplicateStruct name => .duplicateStruct (name.rename ρ)
  | .duplicateField struct field => .duplicateField (struct.rename ρ) (field.rename ρ)
  | .duplicateFunction name => .duplicateFunction (name.rename ρ)
  | .duplicateParam function param => .duplicateParam (function.rename ρ) (param.rename ρ)
  | .voidField struct field => .voidField (struct.rename ρ) (field.rename ρ)
  | .voidParam function param => .voidParam (function.rename ρ) (param.rename ρ)
  | .voidVariable name => .voidVariable (name.rename ρ)
  | .breakOutsideLoop => .breakOutsideLoop
  | .continueOutsideLoop => .continueOutsideLoop
  | .unreachableCode => .unreachableCode
  | .missingReturn function returnType => .missingReturn (function.rename ρ) (returnType.rename ρ)

/-- A renamed fault is of the same kind. -/
theorem TypeError.kind_rename (ρ : Renaming) (e : TypeError) : (e.rename ρ).kind = e.kind := by
  cases e <;> rfl

/-! ## Different things stay different -/

/-- Names of one kind stay apart. -/
theorem Name.rename_inj {kind : NameKind} {ρ : Renaming} {m n : Name kind} : m.rename ρ = n.rename ρ ↔ m = n := by
  refine ⟨fun h => ?_, fun h => by rw [h]⟩
  have htext : ρ.text kind m.text = ρ.text kind n.text := congrArg Name.text h
  exact congrArg Name.mk (ρ.injective kind htext)

/-- Types stay apart. -/
theorem Ty.rename_inj {ρ : Renaming} {T U : Ty} : T.rename ρ = U.rename ρ ↔ T = U := by
  refine ⟨fun h => ?_, fun h => by rw [h]⟩
  induction T generalizing U with
  | pointer target ih =>
    cases U with
    | pointer target' => rw [ih (Ty.pointer.inj h)]
    | _ => cases h
  | struct name =>
    cases U with
    | struct name' => rw [Name.rename_inj.1 (Ty.struct.inj h)]
    | _ => cases h
  | void | int | char | bool =>
    cases U <;> cases h
    rfl

/-- A type stays `void`, or stays another one. -/
theorem Ty.isVoid_rename (ρ : Renaming) (T : Ty) : (T.rename ρ).isVoid = T.isVoid := by
  cases T <;> rfl

/-- There are as many expressions as before. -/
theorem Expr.length_listRename (ρ : Renaming) (es : List Expr) : (Expr.listRename ρ es).length = es.length := by
  induction es with
  | nil => rfl
  | cons e es ih => rw [listRename, List.length_cons, List.length_cons, ih]

/-! ## The renaming that changes nothing -/

/-- Where all names are kept, nothing changes: no name, and so no type, text, signature or fault. -/
@[simp] theorem Name.rename_keep {kind : NameKind} (name : Name kind) : name.rename Renaming.keep = name := rfl

@[simp] theorem Ty.rename_keep (T : Ty) : T.rename Renaming.keep = T := by
  induction T with
  | pointer target ih => rw [rename, ih]
  | _ => rfl

@[simp] theorem Decl.rename_keep {kind : NameKind} (decl : Decl kind) : decl.rename Renaming.keep = decl := by
  rw [rename, Ty.rename_keep, Name.rename_keep]

@[simp] theorem Decl.map_rename_keep {kind : NameKind} (decls : List (Decl kind)) :
    decls.map (Decl.rename Renaming.keep) = decls := by
  rw [funext Decl.rename_keep]
  exact List.map_id' decls

@[simp] theorem Place.rename_keep (l : Place) : l.rename Renaming.keep = l := by
  induction l with
  | var x => rfl
  | field base f ih => rw [rename, ih, Name.rename_keep]
  | deref pointer ih => rw [rename, ih]

mutual

@[simp] theorem Expr.rename_keep : ∀ e : Expr, e.rename Renaming.keep = e
  | .int _ | .char _ | .bool _ | .var _ => rfl
  | .malloc part | .free part | .deref part => by rw [rename, Expr.rename_keep part]
  | .field object f => by rw [rename, Expr.rename_keep object, Name.rename_keep]
  | .sizeof ty => by rw [rename, Ty.rename_keep]
  | .binary op left right => by rw [rename, Expr.rename_keep left, Expr.rename_keep right]
  | .construct _ arguments | .call _ arguments => by rw [rename, Expr.listRename_keep arguments, Name.rename_keep]
  | .cast target operand => by rw [rename, Ty.rename_keep, Expr.rename_keep operand]
  | .addressOf place => by rw [rename, Place.rename_keep]

@[simp] theorem Expr.listRename_keep : ∀ es : List Expr, Expr.listRename Renaming.keep es = es
  | [] => rfl
  | e :: es => by rw [listRename, Expr.rename_keep e, Expr.listRename_keep es]

end

@[simp] theorem Stmt.rename_keep (s : Stmt) : s.rename Renaming.keep = s := by
  induction s with
  | breakLoop | continueLoop | returnVoid => rfl
  | ifElse condition thenBranch elseBranch ihThen ihElse => rw [rename, Expr.rename_keep, ihThen, ihElse]
  | whileDo condition body ih => rw [rename, Expr.rename_keep, ih]
  | seq first second ihFirst ihSecond => rw [rename, ihFirst, ihSecond]
  | _ => simp [rename]

@[simp] theorem FunDef.rename_keep (f : FunDef) : f.rename Renaming.keep = f := by
  simp [rename]

@[simp] theorem Signature.rename_keep (signature : Signature) : signature.rename Renaming.keep = signature := by
  simp [rename, funext Ty.rename_keep]

@[simp] theorem TypeError.rename_keep (e : TypeError) : e.rename Renaming.keep = e := by
  cases e with
  | arityMismatch callee expected found => cases callee <;> rfl
  | _ => simp [rename]

end CoreC
