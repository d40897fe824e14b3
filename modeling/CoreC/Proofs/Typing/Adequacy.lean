import CoreC.Proofs.Tables

/-!
# The checker and the rules

The checker accepts exactly what the rules derive, form by form: operations, places, expressions with their arguments,
statements, functions. The tables enter only through what they answer for the program (`Globals.Describes`), so an order of
declarations plays no part.
-/

namespace CoreC

/-- Tables that answer for a program: a structure or a function is found exactly if the program declares it, and a field
name stands for one field at most. -/
structure Globals.Describes (g : Globals) (p : Program) : Prop where
  structs : ∀ name fields, g.structs[name]? = some fields ↔ ⟨name, fields⟩ ∈ p.structs
  funs : ∀ name signature, g.funs[name]? = some signature ↔ ∃ f ∈ p.funs, f.name = name ∧ f.signature = signature
  fieldNames : ∀ s ∈ p.structs, (s.fields.map Decl.name).Nodup

namespace Adequacy

variable {g : Globals} {p : Program} {Γ : Scope}

/-! ## Lookups -/

/-- The tables have the fields of the structures that are declared. -/
theorem fields_eq_ok_iff (hg : g.Describes p) {s : StructName} {fields : List (Decl .field)} :
    g.structs.fields s = .ok fields ↔ ⟨s, fields⟩ ∈ p.structs := by
  rw [StructTable.fields_eq_ok_iff, hg.structs]

/-- The tables have the signatures of the functions that are defined. -/
theorem signature_eq_ok_iff (hg : g.Describes p) {name : FunName} {signature : Signature} :
    g.funs.signature name = .ok signature ↔ ∃ f ∈ p.funs, f.name = name ∧ f.signature = signature := by
  rw [FunTable.signature_eq_ok_iff, hg.funs]

/-- Among declarations of distinct names, the one that is found by its name is the one that has it. -/
theorem find?_name_eq_some_iff {kind : NameKind} {decls : List (Decl kind)} (hn : (decls.map Decl.name).Nodup)
    {x : Name kind} {d : Decl kind} : decls.find? (·.name = x) = some d ↔ d ∈ decls ∧ d.name = x := by
  induction decls with
  | nil => simp
  | cons d' decls ih =>
    rw [List.map_cons, List.nodup_cons, List.mem_map] at hn
    by_cases hx : d'.name = x
    · rw [List.find?_cons_of_pos (by simpa using hx)]
      refine ⟨fun h => ?_, fun h => ?_⟩
      · cases h
        exact ⟨List.mem_cons_self, hx⟩
      · obtain ⟨hd, hdx⟩ := h
        rcases List.mem_cons.1 hd with rfl | hd
        · rfl
        · exact absurd ⟨d, hd, hdx.trans hx.symm⟩ hn.1
    · rw [List.find?_cons_of_neg (by simpa using hx), ih hn.2]
      refine ⟨fun h => ?_, fun h => ?_⟩
      · obtain ⟨hd, hdx⟩ := h
        exact ⟨List.mem_cons_of_mem _ hd, hdx⟩
      · obtain ⟨hd, hdx⟩ := h
        rcases List.mem_cons.1 hd with rfl | hd
        · exact absurd hdx hx
        · exact ⟨hd, hdx⟩

/-- A field of a structure is found with the type it is declared with. -/
theorem fieldType_eq_ok_iff_of_fields {table : StructTable} {s : StructName} {fields : List (Decl .field)}
    (hs : table.fields s = .ok fields) (hn : (fields.map Decl.name).Nodup) {f : FieldName} {T : Ty} :
    table.fieldType s f = .ok T ↔ ⟨T, f⟩ ∈ fields := by
  rw [StructTable.fieldType, hs, Check.ok_bind]
  constructor
  · intro h
    split at h
    · rename_i d hd
      obtain ⟨hmem, rfl⟩ := (find?_name_eq_some_iff hn).1 hd
      cases h
      exact hmem
    · cases h
  · intro hmem
    rw [(find?_name_eq_some_iff hn).2 ⟨hmem, rfl⟩]
    rfl

/-- The type of a field is the one it is declared with. -/
theorem fieldType_eq_ok_iff (hg : g.Describes p) {s : StructName} {f : FieldName} {T : Ty} :
    g.structs.fieldType s f = .ok T ↔ p.HasField s f T := by
  constructor
  · intro h
    obtain ⟨fields, hf, -⟩ := Check.bind_eq_ok_iff.1 h
    have hs := (fields_eq_ok_iff hg).1 hf
    exact ⟨_, hs, rfl, (fieldType_eq_ok_iff_of_fields hf (hg.fieldNames _ hs)).1 h⟩
  · rintro ⟨⟨s, fields⟩, hs, rfl, hmem⟩
    exact (fieldType_eq_ok_iff_of_fields ((fields_eq_ok_iff hg).2 hs) (hg.fieldNames _ hs)).2 hmem

/-- A field is found behind a type exactly when the type is a structure that has it. -/
theorem fieldOf_eq_ok_iff (hg : g.Describes p) {object : Ty} {f : FieldName} {T : Ty} :
    g.fieldOf object f = .ok T ↔ ∃ s, object = .struct s ∧ p.HasField s f T := by
  cases object <;> simp [Globals.fieldOf, fieldType_eq_ok_iff hg]

/-- A pointer is followed to what it points at. -/
theorem pointee_eq_ok_iff {pointer T : Ty} : pointer.pointee = .ok T ↔ pointer = .pointer T := by
  cases pointer <;> simp [Ty.pointee]

/-! ## Operations and places -/

/-- Operators give the types of their rules. -/
theorem binaryOp_eq_ok_iff {op : BinaryOp} {L R T : Ty} : op.typeOf L R = .ok T ↔ op.HasType L R T := by
  refine ⟨fun h => ?_, fun h => ?_⟩
  · cases op with
    | add =>
      cases L with
      | int =>
        obtain ⟨_, hR, hT⟩ := Check.bind_eq_ok_iff.1 h
        cases Ty.expect_eq_ok_iff.1 hR
        cases hT
        exact .addInt
      | pointer target =>
        obtain ⟨_, hR, hT⟩ := Check.bind_eq_ok_iff.1 h
        cases Ty.expect_eq_ok_iff.1 hR
        cases hT
        exact .addPointer target
      | void | char | bool | struct _ => cases h
    | equal =>
      obtain ⟨_, hLR, hT⟩ := Check.bind_eq_ok_iff.1 h
      cases Ty.expect_eq_ok_iff.1 hLR
      cases hT
      exact .equal L
    | sub | mul | div | less =>
      obtain ⟨_, hL, h⟩ := Check.bind_eq_ok_iff.1 h
      obtain ⟨_, hR, hT⟩ := Check.bind_eq_ok_iff.1 h
      cases Ty.expect_eq_ok_iff.1 hL
      cases Ty.expect_eq_ok_iff.1 hR
      cases hT
      constructor
  · cases h with
    | addInt | addPointer | sub | mul | div | less => rfl
    | equal =>
      rw [BinaryOp.typeOf, (Ty.expect_eq_ok_iff (u := ())).2 rfl]
      rfl

/-- Places have the types of their rules. -/
theorem place_typeOf_eq_ok_iff (hg : g.Describes p) (place : Place) {T : Ty} :
    place.typeOf g Γ = .ok T ↔ place.HasType p Γ T := by
  induction place generalizing T with
  | var x =>
    rw [Place.typeOf, Scope.lookup_eq_ok_iff]
    exact ⟨.var, fun h => by cases h with | var hx => exact hx⟩
  | field base f ih =>
    simp only [Place.typeOf, Check.bind_eq_ok_iff, ih, fieldOf_eq_ok_iff hg]
    refine ⟨fun h => ?_, fun h => ?_⟩
    · obtain ⟨_, hb, s, rfl, hf⟩ := h
      exact .field hb hf
    · cases h with | field hb hf => exact ⟨_, hb, _, rfl, hf⟩
  | deref pointer ih =>
    simp only [Place.typeOf, Check.bind_eq_ok_iff, ih, pointee_eq_ok_iff]
    refine ⟨fun h => ?_, fun h => ?_⟩
    · obtain ⟨_, hp, rfl⟩ := h
      exact .deref hp
    · cases h with | deref hp => exact ⟨_, hp, rfl⟩

/-! ## Expressions -/

/-- As many arguments have types as there are types. -/
theorem length_eq_of_haveTypes {arguments : List Expr} {types : List Ty} (h : Expr.HaveTypes p Γ arguments types) :
    types.length = arguments.length := by
  induction arguments generalizing types with
  | nil => cases h; rfl
  | cons e arguments ih => cases h with | cons _ h => simp [ih h]

mutual

/-- The checker finds a type for an expression exactly when the rules derive that type. -/
theorem expr_typeOf_eq_ok_iff (hg : g.Describes p) : ∀ (e : Expr) {T : Ty},
    (e.typeOf g Γ).result = .ok T ↔ e.HasType p Γ T
  | .int value, T => by
    rw [Expr.result_typeOf_int]
    exact ⟨fun h => by cases h; exact .int value, fun h => by cases h; rfl⟩
  | .char value, T => by
    rw [Expr.result_typeOf_char]
    exact ⟨fun h => by cases h; exact .char value, fun h => by cases h; rfl⟩
  | .bool value, T => by
    rw [Expr.result_typeOf_bool]
    exact ⟨fun h => by cases h; exact .bool value, fun h => by cases h; rfl⟩
  | .var x, T => by
    rw [Expr.result_typeOf_var, Scope.lookup_eq_ok_iff]
    exact ⟨.var, fun h => by cases h with | var hx => exact hx⟩
  | .malloc size, T => by
    simp only [Expr.result_typeOf_malloc, Check.bind_eq_ok_iff, expr_typeOf_eq_ok_iff hg size, Ty.expect_eq_ok_iff]
    refine ⟨fun h => ?_, fun h => ?_⟩
    · obtain ⟨_, hs, _, rfl, hT⟩ := h
      cases hT
      exact .malloc hs
    · cases h with | malloc hs => exact ⟨_, hs, (), rfl, rfl⟩
  | .free pointer, T => by
    simp only [Expr.result_typeOf_free, Check.bind_eq_ok_iff, expr_typeOf_eq_ok_iff hg pointer, Ty.expect_eq_ok_iff]
    refine ⟨fun h => ?_, fun h => ?_⟩
    · obtain ⟨_, hs, _, rfl, hT⟩ := h
      cases hT
      exact .free hs
    · cases h with | free hs => exact ⟨_, hs, (), rfl, rfl⟩
  | .sizeof ty, T => by
    rw [Expr.result_typeOf_sizeof]
    exact ⟨fun h => by cases h; exact .sizeof ty, fun h => by cases h; rfl⟩
  | .binary op left right, T => by
    simp only [Expr.result_typeOf_binary, Check.bind_eq_ok_iff, expr_typeOf_eq_ok_iff hg left,
      expr_typeOf_eq_ok_iff hg right, binaryOp_eq_ok_iff]
    refine ⟨fun h => ?_, fun h => ?_⟩
    · obtain ⟨_, hl, _, hr, ho⟩ := h
      exact .binary hl hr ho
    · cases h with | binary hl hr ho => exact ⟨_, hl, _, hr, ho⟩
  | .construct name arguments, T => by
    simp only [Expr.result_typeOf_construct, Check.bind_eq_ok_iff, fields_eq_ok_iff hg, Callee.checkArity_eq_ok_iff]
    refine ⟨fun h => ?_, fun h => ?_⟩
    · obtain ⟨fields, hs, _, hn, _, ha, hT⟩ := h
      cases hT
      exact .construct hs ((checkArguments_eq_ok_iff hg _ arguments (by simpa using hn)).1 ha)
    · cases h with
      | construct hs ha =>
        have hn := length_eq_of_haveTypes ha
        exact ⟨_, hs, (), by simpa using hn, (), (checkArguments_eq_ok_iff hg _ arguments hn).2 ha, rfl⟩
  | .call name arguments, T => by
    simp only [Expr.result_typeOf_call, Check.bind_eq_ok_iff, signature_eq_ok_iff hg, Callee.checkArity_eq_ok_iff]
    refine ⟨fun h => ?_, fun h => ?_⟩
    · obtain ⟨_, ⟨f, hf, rfl, rfl⟩, _, hn, _, ha, hT⟩ := h
      cases hT
      exact .call hf ((checkArguments_eq_ok_iff hg _ arguments hn).1 ha)
    · cases h with
      | call hf ha =>
        have hn := length_eq_of_haveTypes ha
        exact ⟨_, ⟨_, hf, rfl, rfl⟩, (), hn, (), (checkArguments_eq_ok_iff hg _ arguments hn).2 ha, rfl⟩
  | .cast target operand, T => by
    simp only [Expr.result_typeOf_cast, Check.bind_eq_ok_iff, expr_typeOf_eq_ok_iff hg operand]
    refine ⟨fun h => ?_, fun h => ?_⟩
    · obtain ⟨_, ho, hT⟩ := h
      cases hT
      exact .cast target ho
    · cases h with | cast _ ho => exact ⟨_, ho, rfl⟩
  | .addressOf place, T => by
    simp only [Expr.result_typeOf_addressOf, Check.bind_eq_ok_iff, place_typeOf_eq_ok_iff hg]
    refine ⟨fun h => ?_, fun h => ?_⟩
    · obtain ⟨_, hp, hT⟩ := h
      cases hT
      exact .addressOf hp
    · cases h with | addressOf hp => exact ⟨_, hp, rfl⟩
  | .deref pointer, T => by
    simp only [Expr.result_typeOf_deref, Check.bind_eq_ok_iff, expr_typeOf_eq_ok_iff hg pointer, pointee_eq_ok_iff]
    refine ⟨fun h => ?_, fun h => ?_⟩
    · obtain ⟨_, hp, rfl⟩ := h
      exact .deref hp
    · cases h with | deref hp => exact ⟨_, hp, rfl⟩
  | .field object f, T => by
    simp only [Expr.result_typeOf_field, Check.bind_eq_ok_iff, expr_typeOf_eq_ok_iff hg object, fieldOf_eq_ok_iff hg]
    refine ⟨fun h => ?_, fun h => ?_⟩
    · obtain ⟨_, ho, s, rfl, hf⟩ := h
      exact .field ho hf
    · cases h with | field ho hf => exact ⟨_, ho, _, rfl, hf⟩

/-- As many arguments as there are types pass exactly when the rules derive these types. -/
theorem checkArguments_eq_ok_iff (hg : g.Describes p) : ∀ (types : List Ty) (arguments : List Expr) {u : Unit},
    types.length = arguments.length →
      ((Expr.checkArguments g Γ types arguments).result = .ok u ↔ Expr.HaveTypes p Γ arguments types)
  | [], [], u, _ => by
    rw [Expr.result_checkArguments_nil]
    exact ⟨fun _ => .nil, fun _ => rfl⟩
  | [], _ :: _, u, hn => by simp at hn
  | _ :: _, [], u, hn => by simp at hn
  | expected :: types, e :: arguments, u, hn => by
    have hn : types.length = arguments.length := by simpa using hn
    simp only [Expr.result_checkArguments_cons, Check.bind_eq_ok_iff, expr_typeOf_eq_ok_iff hg e, Ty.expect_eq_ok_iff,
      checkArguments_eq_ok_iff hg types arguments hn]
    refine ⟨fun h => ?_, fun h => ?_⟩
    · obtain ⟨_, he, _, rfl, ha⟩ := h
      exact .cons he ha
    · cases h with | cons he ha => exact ⟨_, he, (), rfl, ha⟩

end

/-! ## Statements -/

theorem checkCondition_eq_ok_iff (hg : g.Describes p) {condition : Expr} {u : Unit} :
    (condition.checkCondition g Γ).result = .ok u ↔ condition.HasType p Γ .bool := by
  rw [Expr.result_checkCondition, Check.bind_eq_ok_iff]
  simp [expr_typeOf_eq_ok_iff hg, Ty.expect_eq_ok_iff]

theorem checkFreed_eq_ok_iff (hg : g.Describes p) {pointer : Expr} {u : Unit} :
    (pointer.checkFreed g Γ).result = .ok u ↔ pointer.HasType p Γ (.pointer .void) := by
  rw [Expr.result_checkFreed, Check.bind_eq_ok_iff]
  simp [expr_typeOf_eq_ok_iff hg, Ty.expect_eq_ok_iff, Ty.voidPointer]

/-- The checker accepts a statement with an outcome exactly when the rules derive that outcome. -/
theorem stmt_check_eq_ok_iff (hg : g.Describes p) {returnType : Ty} (s : Stmt) {inLoop : Bool} {Γ Γ' : Scope}
    {returns : Bool} :
    (s.check g returnType inLoop Γ).result = .ok ⟨Γ', returns⟩ ↔ s.Typed p returnType inLoop Γ Γ' returns := by
  induction s generalizing inLoop Γ Γ' returns with
  | expr value =>
    simp only [Stmt.result_check_expr, Check.bind_eq_ok_iff, expr_typeOf_eq_ok_iff hg]
    refine ⟨fun h => ?_, fun h => ?_⟩
    · obtain ⟨_, hv, ho⟩ := h
      cases ho
      exact .expr hv
    · cases h with | expr hv => exact ⟨_, hv, rfl⟩
  | declare decl init =>
    rw [Stmt.result_check_declare]
    by_cases hd : decl.ty = .void
    · rw [if_pos (Ty.isVoid_eq_true_iff.2 hd)]
      refine ⟨fun h => ?_, fun h => ?_⟩
      · cases h
      · cases h with | declare hT _ => exact absurd hd hT
    · rw [if_neg (by rwa [Ty.isVoid_eq_true_iff])]
      simp only [Check.bind_eq_ok_iff, expr_typeOf_eq_ok_iff hg, Ty.expect_eq_ok_iff]
      refine ⟨fun h => ?_, fun h => ?_⟩
      · obtain ⟨_, hi, _, rfl, ho⟩ := h
        cases ho
        exact .declare hd hi
      · cases h with | declare _ hi => exact ⟨_, hi, (), rfl, rfl⟩
  | assign target value =>
    simp only [Stmt.result_check_assign, Check.bind_eq_ok_iff, place_typeOf_eq_ok_iff hg, expr_typeOf_eq_ok_iff hg,
      Ty.expect_eq_ok_iff]
    refine ⟨fun h => ?_, fun h => ?_⟩
    · obtain ⟨_, ht, _, hv, _, rfl, ho⟩ := h
      cases ho
      exact .assign ht hv
    · cases h with | assign ht hv => exact ⟨_, ht, _, hv, (), rfl, rfl⟩
  | ifElse condition thenBranch elseBranch ihThen ihElse =>
    simp only [Stmt.result_check_ifElse, Check.bind_eq_ok_iff, checkCondition_eq_ok_iff hg]
    refine ⟨fun h => ?_, fun h => ?_⟩
    · obtain ⟨_, hc, o₁, h₁, o₂, h₂, ho⟩ := h
      cases ho
      exact .ifElse hc (ihThen.1 h₁) (ihElse.1 h₂)
    · cases h with | ifElse hc h₁ h₂ => exact ⟨(), hc, _, ihThen.2 h₁, _, ihElse.2 h₂, rfl⟩
  | whileDo condition body ih =>
    simp only [Stmt.result_check_whileDo, Check.bind_eq_ok_iff, checkCondition_eq_ok_iff hg]
    refine ⟨fun h => ?_, fun h => ?_⟩
    · obtain ⟨_, hc, o, hb, ho⟩ := h
      cases ho
      exact .whileDo hc (ih.1 hb)
    · cases h with | whileDo hc hb => exact ⟨(), hc, _, ih.2 hb, rfl⟩
  | breakLoop =>
    rw [Stmt.result_check_breakLoop]
    refine ⟨fun h => ?_, fun h => ?_⟩
    · cases inLoop <;> cases h
      exact .breakLoop
    · cases h
      rfl
  | continueLoop =>
    rw [Stmt.result_check_continueLoop]
    refine ⟨fun h => ?_, fun h => ?_⟩
    · cases inLoop <;> cases h
      exact .continueLoop
    · cases h
      rfl
  | returnVoid =>
    simp only [Stmt.result_check_returnVoid, Check.bind_eq_ok_iff, Ty.expect_eq_ok_iff]
    refine ⟨fun h => ?_, fun h => ?_⟩
    · obtain ⟨_, hT, ho⟩ := h
      cases ho
      exact .returnVoid hT
    · cases h with | returnVoid hT => exact ⟨(), hT, rfl⟩
  | returnValue value =>
    simp only [Stmt.result_check_returnValue, Check.bind_eq_ok_iff, expr_typeOf_eq_ok_iff hg, Ty.expect_eq_ok_iff]
    refine ⟨fun h => ?_, fun h => ?_⟩
    · obtain ⟨_, hv, _, rfl, ho⟩ := h
      cases ho
      exact .returnValue hv
    · cases h with | returnValue hv => exact ⟨_, hv, (), rfl, rfl⟩
  | free pointer =>
    simp only [Stmt.result_check_free, Check.bind_eq_ok_iff, checkFreed_eq_ok_iff hg]
    refine ⟨fun h => ?_, fun h => ?_⟩
    · obtain ⟨_, hp, ho⟩ := h
      cases ho
      exact .free hp
    · cases h with | free hp => exact ⟨(), hp, rfl⟩
  | seq first second ihFirst ihSecond =>
    rw [Stmt.result_check_seq_eq_ok_iff]
    refine ⟨fun h => ?_, fun h => ?_⟩
    · obtain ⟨⟨Γ₁, _⟩, h₁, rfl, h₂⟩ := h
      exact .seq (ihFirst.1 h₁) (ihSecond.1 h₂)
    · cases h with | seq h₁ h₂ => exact ⟨_, ihFirst.2 h₁, rfl, ihSecond.2 h₂⟩

end Adequacy

end CoreC
