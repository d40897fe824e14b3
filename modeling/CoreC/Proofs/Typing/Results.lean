import CoreC.Typing.Program

/-!
# What a check answers

The checker keeps a log while it works. Here are its answers alone: the result of a check as a chain of the results of its
parts, one equation for each form of expression and of statement. Whatever is proved about what the checker accepts, or
about the fault it finds, rests on these equations and on nothing else in the text of the checker.
-/

namespace CoreC

namespace Check

variable {α β : Type}

@[simp] theorem ok_bind (a : α) (f : α → Except TypeError β) : (Except.ok a >>= f) = f a := rfl

@[simp] theorem error_bind (e : TypeError) (f : α → Except TypeError β) : (Except.error e >>= f) = .error e := rfl

/-- A chain whose second link only hands the value on is its first link. -/
@[simp] theorem bind_ok (x : Except TypeError α) : (x >>= Except.ok) = x := bind_pure x

/-- A chain of two results succeeds exactly when both of them do. -/
theorem bind_eq_ok_iff {x : Except TypeError α} {f : α → Except TypeError β} {b : β} :
    (x >>= f) = .ok b ↔ ∃ a, x = .ok a ∧ f a = .ok b := by
  cases x with
  | ok a => simp
  | error e => simp

/-- A chain of two results fails with the fault of the first one, or with that of the second one behind a success. -/
theorem bind_eq_error_iff {x : Except TypeError α} {f : α → Except TypeError β} {e : TypeError} :
    (x >>= f) = .error e ↔ x = .error e ∨ ∃ a, x = .ok a ∧ f a = .error e := by
  cases x with
  | ok a => simp
  | error e' => simp

/-- Checks that are folded over a list fail with the fault of the first one that fails. -/
theorem exists_of_foldlM_eq_error {f : β → α → Check β} {l : List α} {b : β} {e : TypeError}
    (h : (l.foldlM f b).result = .error e) :
    ∃ pre a post b', l = pre ++ a :: post ∧ (pre.foldlM f b).result = .ok b' ∧ (f b' a).result = .error e := by
  induction l generalizing b with
  | nil => cases h
  | cons a l ih =>
    rw [List.foldlM_cons, result_bind] at h
    rcases bind_eq_error_iff.1 h with ha | ⟨b', hb, hl⟩
    · exact ⟨[], a, l, b, rfl, rfl, ha⟩
    · obtain ⟨pre, a', post, b'', rfl, hpre, ha'⟩ := ih hl
      refine ⟨a :: pre, a', post, b'', rfl, ?_, ha'⟩
      rw [List.foldlM_cons, result_bind, hb, ok_bind, hpre]

/-- Checks that are folded over a list fail exactly where one of them fails behind others that do not; what is behind it does
not matter. -/
theorem foldlM_eq_error_iff {f : β → α → Check β} {l : List α} {b : β} {e : TypeError} :
    (l.foldlM f b).result = .error e ↔
      ∃ pre a post b', l = pre ++ a :: post ∧ (pre.foldlM f b).result = .ok b' ∧ (f b' a).result = .error e := by
  constructor
  · exact exists_of_foldlM_eq_error
  · rintro ⟨pre, a, post, b', rfl, hpre, ha⟩
    rw [List.foldlM_append, result_bind, hpre, ok_bind, List.foldlM_cons, result_bind, ha, error_bind]

/-- A check that fails is not followed by anything. -/
theorem bind_of_error {x : Check α} {e : TypeError} (hx : x.result = .error e) (f : α → Check β) :
    x >>= f = ⟨x.log, .error e⟩ := by
  apply ext
  · rw [log_bind, hx, List.append_nil]
  · rw [result_bind, hx, error_bind]

/-- A check that succeeds is followed by what is to be done with its value. -/
theorem bind_of_ok {x : Check α} {a : α} (hx : x.result = .ok a) (f : α → Check β) :
    x >>= f = ⟨x.log ++ (f a).log, (f a).result⟩ := by
  apply ext
  · rw [log_bind, hx]
  · rw [result_bind, hx, ok_bind]

/-- Checks that are run one after the other fail with the fault of the first one that fails. -/
theorem exists_of_forM_eq_error {check : α → Check Unit} {l : List α} {e : TypeError}
    (h : (l.forM check : Check Unit).result = .error e) :
    ∃ pre a post, l = pre ++ a :: post ∧ (pre.forM check : Check Unit).result = .ok () ∧ (check a).result = .error e := by
  induction l with
  | nil => cases h
  | cons a l ih =>
    rw [List.forM, result_bind] at h
    rcases bind_eq_error_iff.1 h with ha | ⟨_, ha, hl⟩
    · exact ⟨[], a, l, rfl, rfl, ha⟩
    · obtain ⟨pre, a', post, rfl, hpre, ha'⟩ := ih hl
      refine ⟨a :: pre, a', post, rfl, ?_, ha'⟩
      rw [List.forM, result_bind, ha, ok_bind, hpre]

end Check

/-- What is expected is what is found, or there is a fault that names both. -/
theorem Ty.expect_eq_ok_iff {expected found : Ty} {u : Unit} : Ty.expect expected found = .ok u ↔ expected = found := by
  unfold Ty.expect
  split <;> simp_all

/-- A callee passes with as many arguments as it takes. -/
theorem Callee.checkArity_eq_ok_iff {callee : Callee} {expected found : Nat} {u : Unit} :
    callee.checkArity expected found = .ok u ↔ expected = found := by
  unfold Callee.checkArity
  split <;> simp_all

/-- A variable has the type that the scope gives it. -/
theorem Scope.lookup_eq_ok_iff {Γ : Scope} {x : VarName} {T : Ty} : Γ.lookup x = .ok T ↔ Γ[x]? = some T := by
  unfold Scope.lookup
  split <;> simp_all

/-- A structure has the fields that the table gives it. -/
theorem StructTable.fields_eq_ok_iff {table : StructTable} {s : StructName} {fields : List (Decl .field)} :
    table.fields s = .ok fields ↔ table[s]? = some fields := by
  unfold StructTable.fields
  split <;> simp_all

/-- A function has the signature that the table gives it. -/
theorem FunTable.signature_eq_ok_iff {table : FunTable} {f : FunName} {signature : Signature} :
    table.signature f = .ok signature ↔ table[f]? = some signature := by
  unfold FunTable.signature
  split <;> simp_all

/-! ## Expressions -/

namespace Expr

variable (g : Globals) (Γ : Scope)

attribute [local simp] typeOf checkArguments Check.result_bind

/-- A number is an `int`, and there is nothing to find; likewise for the other literals. -/
theorem result_typeOf_int (value : Int64) : ((Expr.int value).typeOf g Γ).result = .ok .int := by
  simp [-bind_pure_comp]

theorem result_typeOf_char (value : Char) : ((Expr.char value).typeOf g Γ).result = .ok .char := by
  simp [-bind_pure_comp]

theorem result_typeOf_bool (value : Bool) : ((Expr.bool value).typeOf g Γ).result = .ok .bool := by
  simp [-bind_pure_comp]

/-- A variable is looked up in the scope. -/
theorem result_typeOf_var (x : VarName) : ((Expr.var x).typeOf g Γ).result = Γ.lookup x := by
  simp [-bind_pure_comp]

/-- Memory is asked for by an `int`, and comes as a pointer to anything. -/
theorem result_typeOf_malloc (size : Expr) :
    ((Expr.malloc size).typeOf g Γ).result = (do
      Ty.expect .int (← (size.typeOf g Γ).result)
      .ok .voidPointer) := by
  simp [-bind_pure_comp]

/-- Only a pointer to anything is released, and there is no value. -/
theorem result_typeOf_free (pointer : Expr) :
    ((Expr.free pointer).typeOf g Γ).result = (do
      Ty.expect .voidPointer (← (pointer.typeOf g Γ).result)
      .ok .void) := by
  simp [-bind_pure_comp]

/-- The size of any type is an `int`, also that of a structure that is not declared. -/
theorem result_typeOf_sizeof (ty : Ty) : ((Expr.sizeof ty).typeOf g Γ).result = .ok .int := by
  simp [-bind_pure_comp]

/-- Both operands are checked from left to right before they are compared. -/
theorem result_typeOf_binary (op : BinaryOp) (left right : Expr) :
    ((Expr.binary op left right).typeOf g Γ).result = (do
      op.typeOf (← (left.typeOf g Γ).result) (← (right.typeOf g Γ).result)) := by
  simp [-bind_pure_comp]

/-- A structure is made of a value for each of its fields. The structure is looked up first, then the values are counted, and
only then they are checked. -/
theorem result_typeOf_construct (name : StructName) (arguments : List Expr) :
    ((Expr.construct name arguments).typeOf g Γ).result = (do
      let fields ← g.structs.fields name
      Callee.checkArity (.struct name) fields.length arguments.length
      (checkArguments g Γ (fields.map Decl.ty) arguments).result
      .ok (.struct name)) := by
  simp [-bind_pure_comp]

/-- A function is called like a structure is made, and gives what it returns. -/
theorem result_typeOf_call (name : FunName) (arguments : List Expr) :
    ((Expr.call name arguments).typeOf g Γ).result = (do
      let signature ← g.funs.signature name
      Callee.checkArity (.func name) signature.params.length arguments.length
      (checkArguments g Γ signature.params arguments).result
      .ok signature.returnType) := by
  simp [-bind_pure_comp]

/-- A value of any type is converted to any other. -/
theorem result_typeOf_cast (target : Ty) (operand : Expr) :
    ((Expr.cast target operand).typeOf g Γ).result = (do
      let _ ← (operand.typeOf g Γ).result
      .ok target) := by
  simp [-bind_pure_comp]

/-- The address of a place is a pointer to its type. -/
theorem result_typeOf_addressOf (place : Place) :
    ((Expr.addressOf place).typeOf g Γ).result = (do
      .ok (.pointer (← place.typeOf g Γ))) := by
  simp [-bind_pure_comp]

/-- Only a pointer is followed, to what it points at. -/
theorem result_typeOf_deref (pointer : Expr) :
    ((Expr.deref pointer).typeOf g Γ).result = (do
      (← (pointer.typeOf g Γ).result).pointee) := by
  simp [-bind_pure_comp]

/-- A field is taken of a structure only, by its name. -/
theorem result_typeOf_field (object : Expr) (f : FieldName) :
    ((Expr.field object f).typeOf g Γ).result = (do
      g.fieldOf (← (object.typeOf g Γ).result) f) := by
  simp [-bind_pure_comp]

/-- Where no argument is left there is nothing to find. -/
theorem result_checkArguments_nil (types : List Ty) : (checkArguments g Γ types []).result = .ok () := by
  cases types <;> simp

/-- Each argument is compared with the type expected of it before the next one is looked at. -/
theorem result_checkArguments_cons (expected : Ty) (types : List Ty) (e : Expr) (arguments : List Expr) :
    (checkArguments g Γ (expected :: types) (e :: arguments)).result = (do
      Ty.expect expected (← (e.typeOf g Γ).result)
      (checkArguments g Γ types arguments).result) := by
  simp

/-- What a statement releases is a pointer to anything, as in an expression. -/
theorem result_checkFreed (pointer : Expr) :
    (pointer.checkFreed g Γ).result = (do Ty.expect .voidPointer (← (pointer.typeOf g Γ).result)) := by
  simp [checkFreed]

/-- A condition is a `bool`. -/
theorem result_checkCondition (condition : Expr) :
    (condition.checkCondition g Γ).result = (do Ty.expect .bool (← (condition.typeOf g Γ).result)) := by
  simp [checkCondition]

end Expr

/-! ## Statements -/

namespace Stmt

variable (g : Globals) (returnType : Ty) (inLoop : Bool) (Γ : Scope)

attribute [local simp] check Check.result_bind

/-- An expression may have any type as a statement, and leaves the scope as it is. -/
theorem result_check_expr (value : Expr) :
    ((Stmt.expr value).check g returnType inLoop Γ).result = (do
      let _ ← (value.typeOf g Γ).result
      .ok ⟨Γ, false⟩) := by
  simp [-bind_pure_comp]

/-- A variable is not `void`, which is seen before its first value is looked at, and it is added to the scope. -/
theorem result_check_declare (decl : Decl .var) (init : Expr) :
    ((Stmt.declare decl init).check g returnType inLoop Γ).result = (
      if decl.ty.isVoid then
        .error (.voidVariable decl.name)
      else do
        Ty.expect decl.ty (← (init.typeOf g Γ).result)
        .ok ⟨Γ.extend decl, false⟩) := by
  simp only [check]
  split <;> simp [-bind_pure_comp]

/-- A place is checked before the value that is assigned to it. -/
theorem result_check_assign (target : Place) (value : Expr) :
    ((Stmt.assign target value).check g returnType inLoop Γ).result = (do
      let targetType ← target.typeOf g Γ
      Ty.expect targetType (← (value.typeOf g Γ).result)
      .ok ⟨Γ, false⟩) := by
  simp [-bind_pure_comp]

/-- Both branches are checked in the scope of the whole, and what they declare is not seen behind them. The whole returns if
both of them do. -/
theorem result_check_ifElse (condition : Expr) (thenBranch elseBranch : Stmt) :
    ((Stmt.ifElse condition thenBranch elseBranch).check g returnType inLoop Γ).result = (do
      (condition.checkCondition g Γ).result
      let thenOutcome ← (thenBranch.check g returnType inLoop Γ).result
      let elseOutcome ← (elseBranch.check g returnType inLoop Γ).result
      .ok ⟨Γ, thenOutcome.returns && elseOutcome.returns⟩) := by
  simp [-bind_pure_comp]

/-- A loop is not known to return, whatever its body does. -/
theorem result_check_whileDo (condition : Expr) (body : Stmt) :
    ((Stmt.whileDo condition body).check g returnType inLoop Γ).result = (do
      (condition.checkCondition g Γ).result
      let _ ← (body.check g returnType true Γ).result
      .ok ⟨Γ, false⟩) := by
  simp [-bind_pure_comp]

/-- A `break` stands inside a loop, and so does a `continue`. -/
theorem result_check_breakLoop :
    (Stmt.breakLoop.check g returnType inLoop Γ).result =
      if inLoop then .ok ⟨Γ, false⟩ else .error .breakOutsideLoop := by
  cases inLoop <;> rfl

theorem result_check_continueLoop :
    (Stmt.continueLoop.check g returnType inLoop Γ).result =
      if inLoop then .ok ⟨Γ, false⟩ else .error .continueOutsideLoop := by
  cases inLoop <;> rfl

/-- Nothing is returned from a function of type `void` only. -/
theorem result_check_returnVoid :
    (Stmt.returnVoid.check g returnType inLoop Γ).result = (do
      Ty.expect returnType .void
      .ok ⟨Γ, true⟩) := by
  simp [-bind_pure_comp]

/-- A value is returned that has the type of the function. -/
theorem result_check_returnValue (value : Expr) :
    ((Stmt.returnValue value).check g returnType inLoop Γ).result = (do
      Ty.expect returnType (← (value.typeOf g Γ).result)
      .ok ⟨Γ, true⟩) := by
  simp [-bind_pure_comp]

/-- A statement that releases something leaves the scope as it is. -/
theorem result_check_free (pointer : Expr) :
    ((Stmt.free pointer).check g returnType inLoop Γ).result = (do
      (pointer.checkFreed g Γ).result
      .ok ⟨Γ, false⟩) := by
  simp [-bind_pure_comp]

/-- The second statement is checked in the scope of the first one, unless that one returns. -/
theorem result_check_seq (first second : Stmt) :
    ((Stmt.seq first second).check g returnType inLoop Γ).result = (do
      let outcome ← (first.check g returnType inLoop Γ).result
      if outcome.returns then
        .error .unreachableCode
      else
        (second.check g returnType inLoop outcome.scope).result) := by
  simp only [check, Check.result_bind]
  congr 1
  funext outcome
  split <;> rfl

variable {g returnType inLoop Γ}

/-- A sequence passes exactly when its first statement does without returning, and then its second one in the scope that is
left to it. -/
theorem result_check_seq_eq_ok_iff {first second : Stmt} {o : Outcome} :
    ((Stmt.seq first second).check g returnType inLoop Γ).result = .ok o ↔
      ∃ o₁, (first.check g returnType inLoop Γ).result = .ok o₁ ∧ o₁.returns = false ∧
        (second.check g returnType inLoop o₁.scope).result = .ok o := by
  rw [result_check_seq, Check.bind_eq_ok_iff]
  refine exists_congr fun o₁ => and_congr_right fun _ => ?_
  cases o₁.returns with
  | true => simp
  | false => simp

end Stmt

/-! ## Functions -/

/-- A function passes if its body does in the scope of the parameters, and returns unless there is nothing to return. -/
theorem FunDef.result_check (g : Globals) (f : FunDef) :
    (f.check g).result = (do
      let outcome ← (f.body.check g f.returnType false (Scope.ofParams f.params)).result
      if !f.returnType.isVoid && !outcome.returns then
        .error (.missingReturn f.name f.returnType)
      else
        .ok ()) := by
  simp only [check, Check.result_bind, Check.result_emit, Check.ok_bind]
  congr 1
  funext outcome
  split <;> rfl

end CoreC
