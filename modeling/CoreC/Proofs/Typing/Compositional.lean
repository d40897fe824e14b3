import CoreC.Proofs.Syntax.Contexts
import CoreC.Proofs.Typing.Results

/-!
# What a part contributes

The checker takes from an expression inside a text its result and nothing else: its type, or its first fault. Two expressions
with the same result can stand for each other in every context, whatever is around them, and the text as a whole keeps its
result, down to the fault that is reported.

Two results are the same as they are reported (`SameReport`). A fault in the number of arguments is reported with the name of
what they were given to, and does not say whether that is a structure or a function. What is proved holds for any way to
compare faults that finds each fault like itself (`Agree`); with equality it says that also the kind of callee is kept.

Inside an expression one scope is in force throughout, so it is enough that the two results agree in it. Inside a statement
the scope at the hole depends on the declarations in front of it; there the results have to agree in every scope. The tables
of a program are built without a look at any body, so they are the same whatever a hole is filled with.
-/

namespace CoreC

variable {α β : Type}

/-- Two faults are reported as the same: they are equal, or equal but for whether a structure or a function of one name was
given a wrong number of arguments. -/
inductive TypeError.SameReport : TypeError → TypeError → Prop where
  | refl (e : TypeError) : SameReport e e
  | arity {callee callee' : Callee} (expected found : Nat) (h : callee.text = callee'.text) :
    SameReport (.arityMismatch callee expected found) (.arityMismatch callee' expected found)

/-- Two results agree: they are the same value, or two faults that are found alike. -/
inductive Agree (R : TypeError → TypeError → Prop) : Except TypeError α → Except TypeError α → Prop where
  | ok (a : α) : Agree R (.ok a) (.ok a)
  | error {e e' : TypeError} (h : R e e') : Agree R (.error e) (.error e')

/-- Two results are reported as the same. -/
def SameReport (x y : Except TypeError α) : Prop :=
  Agree TypeError.SameReport x y

namespace Agree

variable {R : TypeError → TypeError → Prop}

/-- A result agrees with itself if each fault is found like itself. -/
theorem refl (hR : ∀ e, R e e) (x : Except TypeError α) : Agree R x x := by
  cases x with
  | ok a => exact .ok a
  | error e => exact .error (hR e)

/-- Chains agree link by link. -/
theorem bind {x y : Except TypeError α} {f k : α → Except TypeError β} (hx : Agree R x y) (hf : ∀ a, Agree R (f a) (k a)) :
    Agree R (x >>= f) (y >>= k) := by
  cases hx with
  | ok a => exact hf a
  | error h => exact .error h

/-- Where only equal faults are found alike, only equal results agree. -/
theorem eq_iff {x y : Except TypeError α} : Agree Eq x y ↔ x = y := by
  constructor
  · intro h
    cases h with
    | ok a => rfl
    | error h => rw [h]
  · rintro rfl
    exact refl (fun _ => rfl) x

end Agree

namespace CompositionalAux

variable {R : TypeError → TypeError → Prop} {g : Globals} {e₁ e₂ : Expr}

/-! ## Expressions -/

/-- Arguments pass alike with one of them replaced, whatever stands before it and behind it. -/
theorem checkArguments_replace (hR : ∀ e, R e e) {Γ : Scope} (h : Agree R (e₁.typeOf g Γ).result (e₂.typeOf g Γ).result)
    (types : List Ty) (before behind : List Expr) :
    Agree R (Expr.checkArguments g Γ types (before ++ e₁ :: behind)).result
      (Expr.checkArguments g Γ types (before ++ e₂ :: behind)).result := by
  induction before generalizing types with
  | nil =>
    cases types with
    | nil => exact .ok ()
    | cons expected types =>
      rw [List.nil_append, List.nil_append, Expr.result_checkArguments_cons, Expr.result_checkArguments_cons]
      exact h.bind fun _ => .refl hR _
  | cons e before ih =>
    cases types with
    | nil => exact .ok ()
    | cons expected types =>
      rw [List.cons_append, List.cons_append, Expr.result_checkArguments_cons, Expr.result_checkArguments_cons]
      exact (Agree.refl hR _).bind fun _ => (Agree.refl hR _).bind fun _ => ih types

/-- The results of a context agree with either of two expressions whose results agree in its scope. -/
theorem typeOf_fill (hR : ∀ e, R e e) {Γ : Scope} (h : Agree R (e₁.typeOf g Γ).result (e₂.typeOf g Γ).result)
    (C : Expr.Context) : Agree R ((C.fill e₁).typeOf g Γ).result ((C.fill e₂).typeOf g Γ).result := by
  induction C with
  | hole => exact h
  | malloc size ih =>
    rw [Expr.Context.fill, Expr.Context.fill, Expr.result_typeOf_malloc, Expr.result_typeOf_malloc]
    exact ih.bind fun _ => .refl hR _
  | free pointer ih =>
    rw [Expr.Context.fill, Expr.Context.fill, Expr.result_typeOf_free, Expr.result_typeOf_free]
    exact ih.bind fun _ => .refl hR _
  | binaryLeft op left right ih =>
    rw [Expr.Context.fill, Expr.Context.fill, Expr.result_typeOf_binary, Expr.result_typeOf_binary]
    exact ih.bind fun _ => .refl hR _
  | binaryRight op left right ih =>
    rw [Expr.Context.fill, Expr.Context.fill, Expr.result_typeOf_binary, Expr.result_typeOf_binary]
    exact (Agree.refl hR _).bind fun _ => ih.bind fun _ => .refl hR _
  | construct name before argument behind ih =>
    rw [Expr.Context.fill, Expr.Context.fill, Expr.result_typeOf_construct, Expr.result_typeOf_construct]
    -- a replaced argument leaves their number as it is
    simp only [List.length_append, List.length_cons]
    exact (Agree.refl hR _).bind fun fields => (Agree.refl hR _).bind fun _ =>
      (checkArguments_replace hR ih (fields.map Decl.ty) before behind).bind fun _ => .refl hR _
  | call name before argument behind ih =>
    rw [Expr.Context.fill, Expr.Context.fill, Expr.result_typeOf_call, Expr.result_typeOf_call]
    simp only [List.length_append, List.length_cons]
    exact (Agree.refl hR _).bind fun signature => (Agree.refl hR _).bind fun _ =>
      (checkArguments_replace hR ih signature.params before behind).bind fun _ => .refl hR _
  | cast target operand ih =>
    rw [Expr.Context.fill, Expr.Context.fill, Expr.result_typeOf_cast, Expr.result_typeOf_cast]
    exact ih.bind fun _ => .refl hR _
  | deref pointer ih =>
    rw [Expr.Context.fill, Expr.Context.fill, Expr.result_typeOf_deref, Expr.result_typeOf_deref]
    exact ih.bind fun _ => .refl hR _
  | field object f ih =>
    rw [Expr.Context.fill, Expr.Context.fill, Expr.result_typeOf_field, Expr.result_typeOf_field]
    exact ih.bind fun _ => .refl hR _

/-! ## Statements -/

/-- Conditions pass alike if their results agree. -/
theorem checkCondition_fill (hR : ∀ e, R e e) {Γ : Scope} (h : Agree R (e₁.typeOf g Γ).result (e₂.typeOf g Γ).result)
    (C : Expr.Context) : Agree R ((C.fill e₁).checkCondition g Γ).result ((C.fill e₂).checkCondition g Γ).result := by
  rw [Expr.result_checkCondition, Expr.result_checkCondition]
  exact (typeOf_fill hR h C).bind fun _ => .refl hR _

/-- Released pointers pass alike if their results agree. -/
theorem checkFreed_fill (hR : ∀ e, R e e) {Γ : Scope} (h : Agree R (e₁.typeOf g Γ).result (e₂.typeOf g Γ).result)
    (C : Expr.Context) : Agree R ((C.fill e₁).checkFreed g Γ).result ((C.fill e₂).checkFreed g Γ).result := by
  rw [Expr.result_checkFreed, Expr.result_checkFreed]
  exact (typeOf_fill hR h C).bind fun _ => .refl hR _

/-- The results of a statement agree with either of two expressions whose results agree in every scope. -/
theorem check_fill (hR : ∀ e, R e e) (h : ∀ Γ, Agree R (e₁.typeOf g Γ).result (e₂.typeOf g Γ).result) (returnType : Ty)
    (C : Stmt.Context) (inLoop : Bool) (Γ : Scope) :
    Agree R ((C.fill e₁).check g returnType inLoop Γ).result ((C.fill e₂).check g returnType inLoop Γ).result := by
  induction C generalizing inLoop Γ with
  | expr value =>
    rw [Stmt.Context.fill, Stmt.Context.fill, Stmt.result_check_expr, Stmt.result_check_expr]
    exact (typeOf_fill hR (h Γ) value).bind fun _ => .refl hR _
  | declare decl init =>
    rw [Stmt.Context.fill, Stmt.Context.fill, Stmt.result_check_declare, Stmt.result_check_declare]
    -- a `void` variable is a fault whatever it begins with
    split
    · exact .refl hR _
    · exact (typeOf_fill hR (h Γ) init).bind fun _ => .refl hR _
  | assign target value =>
    rw [Stmt.Context.fill, Stmt.Context.fill, Stmt.result_check_assign, Stmt.result_check_assign]
    exact (Agree.refl hR _).bind fun _ => (typeOf_fill hR (h Γ) value).bind fun _ => .refl hR _
  | ifCondition condition thenBranch elseBranch =>
    rw [Stmt.Context.fill, Stmt.Context.fill, Stmt.result_check_ifElse, Stmt.result_check_ifElse]
    exact (checkCondition_fill hR (h Γ) condition).bind fun _ => .refl hR _
  | ifThen condition thenBranch elseBranch ih =>
    rw [Stmt.Context.fill, Stmt.Context.fill, Stmt.result_check_ifElse, Stmt.result_check_ifElse]
    exact (Agree.refl hR _).bind fun _ => (ih inLoop Γ).bind fun _ => .refl hR _
  | ifElse condition thenBranch elseBranch ih =>
    rw [Stmt.Context.fill, Stmt.Context.fill, Stmt.result_check_ifElse, Stmt.result_check_ifElse]
    exact (Agree.refl hR _).bind fun _ => (Agree.refl hR _).bind fun _ => (ih inLoop Γ).bind fun _ => .refl hR _
  | whileCondition condition body =>
    rw [Stmt.Context.fill, Stmt.Context.fill, Stmt.result_check_whileDo, Stmt.result_check_whileDo]
    exact (checkCondition_fill hR (h Γ) condition).bind fun _ => .refl hR _
  | whileBody condition body ih =>
    rw [Stmt.Context.fill, Stmt.Context.fill, Stmt.result_check_whileDo, Stmt.result_check_whileDo]
    exact (Agree.refl hR _).bind fun _ => (ih true Γ).bind fun _ => .refl hR _
  | returnValue value =>
    rw [Stmt.Context.fill, Stmt.Context.fill, Stmt.result_check_returnValue, Stmt.result_check_returnValue]
    exact (typeOf_fill hR (h Γ) value).bind fun _ => .refl hR _
  | free pointer =>
    rw [Stmt.Context.fill, Stmt.Context.fill, Stmt.result_check_free, Stmt.result_check_free]
    exact (checkFreed_fill hR (h Γ) pointer).bind fun _ => .refl hR _
  | seqFirst first second ih =>
    rw [Stmt.Context.fill, Stmt.Context.fill, Stmt.result_check_seq, Stmt.result_check_seq]
    exact (ih inLoop Γ).bind fun _ => .refl hR _
  | seqSecond first second ih =>
    rw [Stmt.Context.fill, Stmt.Context.fill, Stmt.result_check_seq, Stmt.result_check_seq]
    -- the scope of the hole is the one that the first statement leaves
    refine (Agree.refl hR _).bind fun outcome => ?_
    split
    · exact .refl hR _
    · exact ih inLoop outcome.scope

/-! ## Functions and programs -/

/-- Functions pass alike with either of two expressions whose results agree in every scope. -/
theorem funDef_check_fill (hR : ∀ e, R e e) (h : ∀ Γ, Agree R (e₁.typeOf g Γ).result (e₂.typeOf g Γ).result)
    (F : FunDef.Context) : Agree R ((F.fill e₁).check g).result ((F.fill e₂).check g).result := by
  rw [FunDef.result_check, FunDef.result_check]
  exact (check_fill hR h F.returnType F.body false (Scope.ofParams F.params)).bind fun _ => .refl hR _

/-- The bodies pass alike, whatever functions stand before the one with the hole and behind it. -/
theorem checkBodies_fill (hR : ∀ e, R e e) (h : ∀ Γ, Agree R (e₁.typeOf g Γ).result (e₂.typeOf g Γ).result)
    (C : Program.Context) : Agree R ((C.fill e₁).checkBodies g).result ((C.fill e₂).checkBodies g).result := by
  simp only [Program.checkBodies, Program.Context.fill, List.forM_eq_forM, List.forM_append, List.forM_cons,
    Check.result_bind]
  exact (Agree.refl hR _).bind fun _ => (funDef_check_fill hR h C.function).bind fun _ => .refl hR _

/-- The tables do not depend on what is in the hole. -/
theorem globals_fill (C : Program.Context) (e₁ e₂ : Expr) : (C.fill e₁).globals = (C.fill e₂).globals := by
  have hregister : ∀ table, FunTable.register table (C.function.fill e₁) = FunTable.register table (C.function.fill e₂) :=
    fun _ => rfl
  have hfuns : FunTable.build (C.fill e₁).funs = FunTable.build (C.fill e₂).funs := by
    simp only [FunTable.build, Program.Context.fill, List.foldlM_append, List.foldlM_cons, hregister]
  rw [Program.globals, Program.globals, hfuns]
  rfl

/-- The results of a program agree with either of two expressions whose results agree in every scope under its tables. -/
theorem program_check_fill (hR : ∀ e, R e e) (C : Program.Context)
    (h : ∀ g, (C.fill e₁).globals.result = .ok g → ∀ Γ, Agree R (e₁.typeOf g Γ).result (e₂.typeOf g Γ).result) :
    Agree R (C.fill e₁).check.result (C.fill e₂).check.result := by
  rw [Program.check, Program.check, Check.result_bind, Check.result_bind, ← globals_fill C e₁ e₂]
  cases hg : (C.fill e₁).globals.result with
  | error e => exact .error (hR e)
  | ok g =>
    simp only [Check.ok_bind, Check.result_bind]
    exact (checkBodies_fill hR (h g hg) C).bind fun _ => .refl hR _

end CompositionalAux

open CompositionalAux

/-- Typing is compositional. An expression in a context can be replaced by one with the same result in the scope of the
context, and the whole keeps its result. An expression anywhere in the bodies of a program can be replaced by one with the
same result in every scope under the tables of the program, and the check of the program keeps its result. Results are the
same as they are reported; and where the parts are the same down to the kind of what was given a wrong number of arguments, so
is the whole. The contexts are all there are: whatever occurs in an expression or in a program stands in the hole of one. -/
theorem Program.check_compositional :
    (∀ a e : Expr, .expr e ∈ a.nodes ↔ ∃ C : Expr.Context, C.fill e = a) ∧
    (∀ (g : Globals) (Γ : Scope) (C : Expr.Context) (e₁ e₂ : Expr),
      (SameReport (e₁.typeOf g Γ).result (e₂.typeOf g Γ).result →
        SameReport ((C.fill e₁).typeOf g Γ).result ((C.fill e₂).typeOf g Γ).result) ∧
      ((e₁.typeOf g Γ).result = (e₂.typeOf g Γ).result →
        ((C.fill e₁).typeOf g Γ).result = ((C.fill e₂).typeOf g Γ).result)) ∧
    (∀ (p : Program) (e : Expr), (∃ f ∈ p.funs, .expr e ∈ f.body.nodes) ↔ ∃ C : Program.Context, C.fill e = p) ∧
    ∀ (C : Program.Context) (e₁ e₂ : Expr),
      ((∀ g, (C.fill e₁).globals.result = .ok g → ∀ Γ, SameReport (e₁.typeOf g Γ).result (e₂.typeOf g Γ).result) →
        SameReport (C.fill e₁).check.result (C.fill e₂).check.result) ∧
      ((∀ g, (C.fill e₁).globals.result = .ok g → ∀ Γ, (e₁.typeOf g Γ).result = (e₂.typeOf g Γ).result) →
        (C.fill e₁).check.result = (C.fill e₂).check.result) := by
  refine ⟨?_, ?_, ?_, ?_⟩
  · intro a e
    exact Expr.mem_nodes_iff
  · intro g Γ C e₁ e₂
    refine ⟨fun h => typeOf_fill .refl h C, fun h => ?_⟩
    exact Agree.eq_iff.1 (typeOf_fill (fun _ => rfl) (Agree.eq_iff.2 h) C)
  · intro p e
    exact Program.occurs_iff
  · intro C e₁ e₂
    refine ⟨fun h => program_check_fill .refl C h, fun h => ?_⟩
    exact Agree.eq_iff.1 (program_check_fill (fun _ => rfl) C fun g hg Γ => Agree.eq_iff.2 (h g hg Γ))

namespace CompositionalAux

/-- A program with a hole in the second argument of a call, and with a fault behind the call. -/
def faultyBehind : Program.Context where
  structs := []
  before := [⟨.int, ⟨"f"⟩, [⟨.bool, ⟨"b"⟩⟩, ⟨.int, ⟨"n"⟩⟩], .returnValue (.var ⟨"n"⟩)⟩]
  function :=
    ⟨.void, ⟨"main"⟩, [], .seqFirst
      (.declare ⟨.int, ⟨"y"⟩⟩ (.call ⟨"f"⟩ [.bool true] (.binaryRight .add (.int 2) .hole) []))
      (.expr (.deref (.var ⟨"y"⟩)))⟩
  behind := []

/-- A program that declares a structure of one field and a function of one parameter, both of one name, and has a hole under
a cast. -/
def oneName : Program.Context where
  structs := [⟨⟨"f"⟩, [⟨.int, ⟨"n"⟩⟩]⟩]
  before := [⟨.void, ⟨"f"⟩, [⟨.int, ⟨"n"⟩⟩], .returnVoid⟩]
  function := ⟨.void, ⟨"main"⟩, [], .expr (.cast .int .hole)⟩
  behind := []

/-- Without arguments the function and the structure are at fault, and the two faults are reported as the same. -/
theorem sameReport_oneName {g : Globals} (hg : (oneName.fill (.call ⟨"f"⟩ [])).globals.result = .ok g) (Γ : Scope) :
    SameReport ((Expr.call ⟨"f"⟩ []).typeOf g Γ).result ((Expr.construct ⟨"f"⟩ []).typeOf g Γ).result := by
  cases hg
  exact .error (.arity 1 0 rfl)

end CompositionalAux

/-- What a variable for a number points at is the same fault as what a number points at, and a number in the argument of a
call may be a size as well: the fault behind the call stays the one reported. A call with too few arguments may be replaced by
a structure of the same name with too few, and the program is reported to be at fault in the same way. -/
theorem Program.check_compositional_argument :
    ((Expr.deref (.var ⟨"x"⟩)).typeOf {} (Scope.ofParams [⟨.int, ⟨"x"⟩⟩])).result =
        ((Expr.deref (.int 1)).typeOf {} (Scope.ofParams [⟨.int, ⟨"x"⟩⟩])).result ∧
      (faultyBehind.fill (.sizeof .char)).check.result = .error (.notAPointer .int) ∧
      (oneName.fill (.call ⟨"f"⟩ [])).check.result = .error (.arityMismatch (.func ⟨"f"⟩) 1 0) ∧
      SameReport (oneName.fill (.call ⟨"f"⟩ [])).check.result (oneName.fill (.construct ⟨"f"⟩ [])).check.result := by
  obtain ⟨-, hexpr, -, hprogram⟩ := Program.check_compositional
  have hsame : ∀ g Γ, ((Expr.int 1).typeOf g Γ).result = ((Expr.sizeof .char).typeOf g Γ).result := by
    intro g Γ
    rw [Expr.result_typeOf_int, Expr.result_typeOf_sizeof]
  have hfault : (faultyBehind.fill (.int 1)).check.result = .error (.notAPointer .int) := rfl
  refine ⟨(hexpr {} _ (.deref .hole) (.var ⟨"x"⟩) (.int 1)).2 rfl, ?_, rfl, ?_⟩
  · rw [← (hprogram faultyBehind (.int 1) (.sizeof .char)).2 (fun g _ => hsame g), hfault]
  · exact (hprogram oneName (.call ⟨"f"⟩ []) (.construct ⟨"f"⟩ [])).1 fun _ hg Γ => sameReport_oneName hg Γ

end CoreC
