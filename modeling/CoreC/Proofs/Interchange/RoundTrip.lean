import CoreC.Interchange.Encode
import CoreC.Proofs.Interchange.Decoding
import CoreC.Proofs.Json.Printing

/-!
# Reading what was written

The canonical form of a part of a program represents it, and all numbers in it are integers. So its compact text is read
back as the same value, and the value as the same part: `Source.read_print`.
-/

namespace CoreC

namespace Json

/-! ## Shapes of the canonical form -/

/-- The pieces that are made of a text spell the text. -/
theorem spells_ofText (text : String) : Spells (Piece.ofText text) text.toList := by
  unfold Piece.ofText
  induction text.toList with
  | nil => exact .nil
  | cons c cs ih => exact .char ih

/-- A text is a string that is read as the text. -/
theorem isText_ofText (text : String) : (Json.ofText text).IsText text :=
  .mk (spells_ofText text)

/-- A text of one character is read as the character. -/
theorem isChar_ofText (c : Char) : (Json.ofText c.toString).IsChar c := by
  have h := spells_ofText c.toString
  rw [show c.toString.toList = [c] by simp [Char.toString]] at h
  exact .mk h

/-- A number of 64 bits is read as itself: its sign and its magnitude are in the range of the two forms. -/
theorem isInt64_ofInt (i : Int64) : (Json.ofInt i.toInt).IsInt64 i := by
  by_cases h : i.toInt < 0
  · have hn : Number.ofInt i.toInt = .integer true i.toInt.natAbs := by simp [Number.ofInt, h]
    rw [Json.ofInt, hn]
    exact .negative (by omega) (by omega)
  · have hn : Number.ofInt i.toInt = .integer false i.toInt.natAbs := by simp [Number.ofInt, h]
    rw [Json.ofInt, hn]
    exact .nonneg (by omega)

/-- A variant is an object with its tag as the only key. -/
theorem tagged_variant (tag : String) (payload : Json) : (Json.variant tag payload).Tagged tag payload :=
  .mk (spells_ofText tag)

/-- A tag alone is a variant without a payload. -/
theorem bare_ofText (tag : String) : (Json.ofText tag).Bare tag :=
  .alone (isText_ofText tag)

/-- The members of a record in its canonical form are its fields and nothing else. -/
theorem members_ofText (fields : List (String × Json)) :
    Members (fields.map fun field => (field.1, some field.2)) (fields.map fun field => (Piece.ofText field.1, field.2)) := by
  induction fields with
  | nil => exact .nil
  | cons field fields ih => exact .given (spells_ofText field.1) ih

/-- A record is written with each of its fields once. -/
theorem record_record (fields : List (String × Json)) : (Json.record fields).Record fields := by
  have hnone : ∀ m ∈ ([] : List (List Piece × Json)), ∃ key : String, Spells m.1 key.toList ∧
      ∀ field ∈ fields.map fun field => (field.1, some field.2), field.1 ≠ key := by
    intro m hm
    cases hm
  exact .object (List.Perm.of_eq (List.append_nil _).symm) (members_ofText fields) hnone

/-- An array of forms represents the values that the forms represent, in order. -/
theorem listed_map {α : Type} {R : α → Json → Prop} {f : α → Json} {as : List α} (h : ∀ a ∈ as, R a (f a)) :
    Listed R as (.array (as.map f)) := by
  induction as with
  | nil => exact .nil
  | cons a as ih =>
    rw [List.forall_mem_cons] at h
    exact .cons h.1 (ih h.2)

/-! ## Numbers of the canonical form -/

/-- An integer has a text. -/
theorem spelled_ofInt (i : Int) : (Json.ofInt i).Spelled :=
  .number (Printing.numberText_integer _ _)

/-- A variant can be spelled if its payload can. -/
theorem spelled_variant {tag : String} {payload : Json} (h : payload.Spelled) : (Json.variant tag payload).Spelled := by
  refine .object fun m hm => ?_
  rw [List.mem_singleton] at hm
  rw [hm]
  exact h

/-- A record can be spelled if its fields can. -/
theorem spelled_record {fields : List (String × Json)} (h : ∀ field ∈ fields, field.2.Spelled) :
    (Json.record fields).Spelled := by
  refine .object fun m hm => ?_
  obtain ⟨field, hfield, rfl⟩ := List.mem_map.1 hm
  exact h field hfield

/-- An array can be spelled if its elements can. -/
theorem spelled_array_map {α : Type} {f : α → Json} {as : List α} (h : ∀ a ∈ as, (f a).Spelled) :
    (Json.array (as.map f)).Spelled := by
  refine .array fun e he => ?_
  obtain ⟨a, ha, rfl⟩ := List.mem_map.1 he
  exact h a ha

end Json

open Json

/-! ## The canonical form represents -/

theorem Name.representedBy_toJson {kind : NameKind} (name : Name kind) : name.RepresentedBy name.toJson :=
  isText_ofText name.text

/-- The canonical form of a type represents it. -/
theorem Ty.representedBy_toJson (ty : Ty) : ty.RepresentedBy ty.toJson := by
  induction ty with
  | void => exact .void (bare_ofText _)
  | int => exact .int (bare_ofText _)
  | char => exact .char (bare_ofText _)
  | bool => exact .bool (bare_ofText _)
  | pointer target ih => exact .pointer (tagged_variant _ _) ih
  | struct name => exact .struct (tagged_variant _ _) name.representedBy_toJson

/-- The canonical form of a declaration represents it, with the type in front of the name. -/
theorem Decl.representedBy_toJson {kind : NameKind} (decl : Decl kind) : decl.RepresentedBy decl.toJson :=
  .mk (record_record _) decl.ty.representedBy_toJson decl.name.representedBy_toJson

theorem BinaryOp.representedBy_toJson (op : BinaryOp) : op.RepresentedBy op.toJson := by
  cases op <;> exact bare_ofText _

/-- The canonical form of a place represents it. -/
theorem Place.representedBy_toJson (place : Place) : place.RepresentedBy place.toJson := by
  induction place with
  | var name => exact .var (tagged_variant _ _) name.representedBy_toJson
  | field base name ih => exact .field (tagged_variant _ _) (record_record _) ih name.representedBy_toJson
  | deref pointer ih => exact .deref (tagged_variant _ _) ih

mutual

/-- The canonical form of an expression represents it, and that of some expressions represents their list. -/
theorem Expr.representedBy_toJson : ∀ e : Expr, e.RepresentedBy e.toJson
  | .int value => by
    rw [Expr.toJson]
    exact .int (tagged_variant _ _) (isInt64_ofInt value)
  | .char value => by
    rw [Expr.toJson]
    exact .char (tagged_variant _ _) (isChar_ofText value)
  | .bool value => by
    rw [Expr.toJson]
    exact .bool (tagged_variant _ _)
  | .var name => by
    rw [Expr.toJson]
    exact .var (tagged_variant _ _) name.representedBy_toJson
  | .malloc size => by
    rw [Expr.toJson]
    exact .malloc (tagged_variant _ _) size.representedBy_toJson
  | .free pointer => by
    rw [Expr.toJson]
    exact .free (tagged_variant _ _) pointer.representedBy_toJson
  | .sizeof ty => by
    rw [Expr.toJson]
    exact .sizeof (tagged_variant _ _) ty.representedBy_toJson
  | .binary op left right => by
    rw [Expr.toJson]
    exact .binary (tagged_variant _ _) (record_record _) op.representedBy_toJson left.representedBy_toJson
      right.representedBy_toJson
  | .construct name arguments => by
    rw [Expr.toJson]
    exact .construct (tagged_variant _ _) (record_record _) name.representedBy_toJson (Expr.listed_listToJson arguments)
  | .call name arguments => by
    rw [Expr.toJson]
    exact .call (tagged_variant _ _) (record_record _) name.representedBy_toJson (Expr.listed_listToJson arguments)
  | .cast target operand => by
    rw [Expr.toJson]
    exact .cast (tagged_variant _ _) (record_record _) target.representedBy_toJson operand.representedBy_toJson
  | .addressOf place => by
    rw [Expr.toJson]
    exact .addressOf (tagged_variant _ _) place.representedBy_toJson
  | .deref pointer => by
    rw [Expr.toJson]
    exact .deref (tagged_variant _ _) pointer.representedBy_toJson
  | .field base name => by
    rw [Expr.toJson]
    exact .field (tagged_variant _ _) (record_record _) base.representedBy_toJson name.representedBy_toJson

theorem Expr.listed_listToJson : ∀ es : List Expr, Listed Expr.RepresentedBy es (.array (Expr.listToJson es))
  | [] => .nil
  | e :: es => .cons e.representedBy_toJson (Expr.listed_listToJson es)

end

/-- The canonical form of a statement represents it. -/
theorem Stmt.representedBy_toJson (s : Stmt) : s.RepresentedBy s.toJson := by
  induction s with
  | expr value => exact .expr (tagged_variant _ _) value.representedBy_toJson
  | declare decl init =>
    exact .declare (tagged_variant _ _) (record_record _) decl.representedBy_toJson init.representedBy_toJson
  | assign target value =>
    exact .assign (tagged_variant _ _) (record_record _) target.representedBy_toJson value.representedBy_toJson
  | ifElse condition thenBranch elseBranch iht ihe =>
    exact .ifElse (tagged_variant _ _) (record_record _) condition.representedBy_toJson iht ihe
  | whileDo condition body ih =>
    exact .whileDo (tagged_variant _ _) (record_record _) condition.representedBy_toJson ih
  | breakLoop => exact .breakLoop (bare_ofText _)
  | continueLoop => exact .continueLoop (bare_ofText _)
  | returnVoid => exact .returnVoid (bare_ofText _)
  | returnValue value => exact .returnValue (tagged_variant _ _) value.representedBy_toJson
  | free pointer => exact .free (tagged_variant _ _) pointer.representedBy_toJson
  | seq first second iha ihb => exact .seq (tagged_variant _ _) iha ihb

theorem StructDecl.representedBy_toJson (decl : StructDecl) : decl.RepresentedBy decl.toJson :=
  .mk (record_record _) decl.name.representedBy_toJson (listed_map fun field _ => field.representedBy_toJson)

theorem FunDef.representedBy_toJson (f : FunDef) : f.RepresentedBy f.toJson :=
  .mk (record_record _) f.returnType.representedBy_toJson f.name.representedBy_toJson
    (listed_map fun param _ => param.representedBy_toJson) f.body.representedBy_toJson

/-- The canonical form of a program represents it. -/
theorem Program.representedBy_toJson (p : Program) : p.RepresentedBy p.toJson :=
  .mk (record_record [("structures", _), ("functions", _)])
    (.given (listed_map fun decl _ => decl.representedBy_toJson))
    (.given (listed_map fun f _ => f.representedBy_toJson))

/-! ## The canonical form is spelled by the grammar -/

theorem Name.spelled_toJson {kind : NameKind} (name : Name kind) : name.toJson.Spelled :=
  .string _

/-- There is a text of the canonical form of a type, which has no numbers in it. -/
theorem Ty.spelled_toJson (ty : Ty) : ty.toJson.Spelled := by
  induction ty with
  | void | int | char | bool => exact .string _
  | pointer target ih => exact spelled_variant ih
  | struct name => exact spelled_variant name.spelled_toJson

theorem Decl.spelled_toJson {kind : NameKind} (decl : Decl kind) : decl.toJson.Spelled :=
  spelled_record (by simp [decl.ty.spelled_toJson, decl.name.spelled_toJson])

theorem BinaryOp.spelled_toJson (op : BinaryOp) : op.toJson.Spelled := by
  cases op <;> exact .string _

theorem Place.spelled_toJson (place : Place) : place.toJson.Spelled := by
  induction place with
  | var name => exact spelled_variant name.spelled_toJson
  | field base name ih => exact spelled_variant (spelled_record (by simp [ih, name.spelled_toJson]))
  | deref pointer ih => exact spelled_variant ih

mutual

/-- There is a text of the canonical form of an expression, in which all numbers are integers. -/
theorem Expr.spelled_toJson : ∀ e : Expr, e.toJson.Spelled
  | .int value => by
    rw [Expr.toJson]
    exact spelled_variant (spelled_ofInt value.toInt)
  | .char value => by
    rw [Expr.toJson]
    exact spelled_variant (.string _)
  | .bool value => by
    rw [Expr.toJson]
    exact spelled_variant (.bool value)
  | .var name => by
    rw [Expr.toJson]
    exact spelled_variant name.spelled_toJson
  | .malloc operand | .free operand | .deref operand => by
    rw [Expr.toJson]
    exact spelled_variant operand.spelled_toJson
  | .sizeof ty => by
    rw [Expr.toJson]
    exact spelled_variant ty.spelled_toJson
  | .binary op left right => by
    rw [Expr.toJson]
    exact spelled_variant
      (spelled_record (by simp [op.spelled_toJson, left.spelled_toJson, right.spelled_toJson]))
  | .construct name arguments => by
    rw [Expr.toJson]
    exact spelled_variant
      (spelled_record (by simp [name.spelled_toJson, Spelled.array (Expr.spelled_listToJson arguments)]))
  | .call name arguments => by
    rw [Expr.toJson]
    exact spelled_variant
      (spelled_record (by simp [name.spelled_toJson, Spelled.array (Expr.spelled_listToJson arguments)]))
  | .cast target operand => by
    rw [Expr.toJson]
    exact spelled_variant (spelled_record (by simp [target.spelled_toJson, operand.spelled_toJson]))
  | .addressOf place => by
    rw [Expr.toJson]
    exact spelled_variant place.spelled_toJson
  | .field base name => by
    rw [Expr.toJson]
    exact spelled_variant (spelled_record (by simp [base.spelled_toJson, name.spelled_toJson]))

theorem Expr.spelled_listToJson : ∀ es : List Expr, ∀ j ∈ Expr.listToJson es, j.Spelled
  | [] => nofun
  | e :: es => by
    rw [Expr.listToJson, List.forall_mem_cons]
    exact ⟨e.spelled_toJson, Expr.spelled_listToJson es⟩

end

/-- There is a text of the canonical form of a statement. -/
theorem Stmt.spelled_toJson (s : Stmt) : s.toJson.Spelled := by
  induction s with
  | expr value => exact spelled_variant value.spelled_toJson
  | declare decl init => exact spelled_variant (spelled_record (by simp [decl.spelled_toJson, init.spelled_toJson]))
  | assign target value =>
    exact spelled_variant (spelled_record (by simp [target.spelled_toJson, value.spelled_toJson]))
  | ifElse condition thenBranch elseBranch iht ihe =>
    exact spelled_variant (spelled_record (by simp [condition.spelled_toJson, iht, ihe]))
  | whileDo condition body ih => exact spelled_variant (spelled_record (by simp [condition.spelled_toJson, ih]))
  | breakLoop | continueLoop | returnVoid => exact .string _
  | returnValue value => exact spelled_variant value.spelled_toJson
  | free pointer => exact spelled_variant pointer.spelled_toJson
  | seq first second iha ihb => exact spelled_variant (.array (by simp [iha, ihb]))

theorem StructDecl.spelled_toJson (decl : StructDecl) : decl.toJson.Spelled := by
  have hfields := spelled_array_map fun field (_ : field ∈ decl.fields) => field.spelled_toJson
  exact spelled_record (by simp [decl.name.spelled_toJson, hfields])

theorem FunDef.spelled_toJson (f : FunDef) : f.toJson.Spelled := by
  have hparams := spelled_array_map fun param (_ : param ∈ f.params) => param.spelled_toJson
  exact spelled_record (by simp [f.returnType.spelled_toJson, f.name.spelled_toJson, hparams, f.body.spelled_toJson])

/-- There is a text of the canonical form of a program. -/
theorem Program.spelled_toJson (p : Program) : p.toJson.Spelled := by
  have hstructs := spelled_array_map fun decl (_ : decl ∈ p.structs) => decl.spelled_toJson
  have hfuns := spelled_array_map fun f (_ : f ∈ p.funs) => f.spelled_toJson
  exact spelled_record (by simp [hstructs, hfuns])

/-! ## Texts -/

/-- The text of a program is parsed as the program. -/
theorem Program.parse?_print (p : Program) : Program.parse? p.print = some p := by
  rw [Program.parse?, Program.print, parse?_render p.spelled_toJson, Option.bind_some, Program.ofJson?_eq_some_iff]
  exact p.representedBy_toJson

/-- The text of an expression is parsed as the expression. -/
theorem Expr.parse?_print (e : Expr) : Expr.parse? e.print = some e := by
  rw [Expr.parse?, Expr.print, parse?_render e.spelled_toJson, Option.bind_some, Expr.ofJson?_eq_some_iff]
  exact e.representedBy_toJson

/-- Reading the canonical text of a program, or of an expression, gives exactly the program or the expression. -/
theorem Source.read_print (reason : String → String) :
    (∀ p : Program, Source.readProgram reason p.print = .ok p) ∧
    ∀ e : Expr, Source.readExpr reason e.print = .ok e := by
  refine ⟨fun p => ?_, fun e => ?_⟩
  · rw [Source.readProgram_eq_ok_iff, p.parse?_print]
  · rw [Source.readExpr_eq_ok_iff, e.parse?_print]

end CoreC
