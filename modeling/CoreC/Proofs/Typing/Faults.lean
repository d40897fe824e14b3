import CoreC.Proofs.Typing.Scopes

/-!
# Which faults are found where, and what they say

An expression can be at fault in nine ways (`TypeError.OfExpr`) and a statement in four more (`TypeError.OfStmt`); all
other faults are found by the tables or at the end of a function. Both predicates also say what a fault found in a text
means: the name it gives is one the tables or the scope do not have, the text it blames stands in the text that was checked,
the types it compares are different.

`Faults.Only P x` says that `x` fails with a fault that satisfies `P` if it fails at all, and it goes through a chain of
checks link by link. The text around the part that is being checked is fixed throughout (`nodes`), and so is a scope all
scopes on the way include (`Γ₀`): a part is checked in the scope of its place, and what it lacks, the first scope lacks too.
-/

namespace CoreC

/-- The tables give a callee this many arguments. -/
def Globals.Takes (g : Globals) : Callee → Nat → Prop
  | .struct s, n => ∃ fields, g.structs[s]? = some fields ∧ fields.length = n
  | .func f, n => ∃ signature, g.funs[f]? = some signature ∧ signature.params.length = n

/-- The faults of expressions and places, found in a text with these nodes where the variables of a scope can be used. -/
def TypeError.OfExpr (g : Globals) (Γ₀ : Scope) (nodes : List Node) : TypeError → Prop
  | .unboundVariable x => x ∉ Γ₀ ∧ Node.Mentions nodes x
  | .typeMismatch expected found => expected ≠ found
  | .arityMismatch callee expected found => expected ≠ found ∧ g.Takes callee expected ∧ Node.Applies nodes callee found
  | .unknownFunction f => f ∉ g.funs ∧ ∃ n, Node.Applies nodes (.func f) n
  | .unknownStruct s => s ∉ g.structs
  | .unknownField s f => (∃ fields, g.structs[s]? = some fields ∧ ∀ d ∈ fields, d.name ≠ f) ∧ Node.Accesses nodes f
  | .notAPointer found => ∀ target, found ≠ .pointer target
  | .notAStruct found => ∀ s, found ≠ .struct s
  | .invalidOperand op operand => op = .add ∧ operand ≠ .int ∧ ∀ target, operand ≠ .pointer target
  | _ => False

/-- The faults of statements: those of their expressions and four of their own. Of the text not only the nodes count but
also which statements have no loop around them. -/
def TypeError.OfStmt (g : Globals) (returnType : Ty) (Γ₀ : Scope) (nodes : List Node) (unlooped : List Stmt) :
    TypeError → Prop
  | .voidVariable x => ∃ init, .stmt (.declare ⟨.void, x⟩ init) ∈ nodes
  | .breakOutsideLoop => .breakLoop ∈ unlooped
  | .continueOutsideLoop => .continueLoop ∈ unlooped
  | .unreachableCode => ∃ first second inLoop Γ o, .stmt (.seq first second) ∈ nodes ∧
      (first.check g returnType inLoop Γ).result = .ok o ∧ o.returns = true
  | e => e.OfExpr g Γ₀ nodes

/-- A fault of an expression is one of a statement around it. -/
theorem TypeError.OfExpr.ofStmt {g : Globals} {returnType : Ty} {Γ₀ : Scope} {nodes : List Node} {unlooped : List Stmt}
    {e : TypeError} (h : e.OfExpr g Γ₀ nodes) : e.OfStmt g returnType Γ₀ nodes unlooped := by
  cases e with
  | voidVariable | breakOutsideLoop | continueOutsideLoop | unreachableCode => exact h.elim
  | _ => exact h

namespace Faults

variable {α β : Type} {P Q : TypeError → Prop} {x : Except TypeError α}

/-- A result fails with such a fault if it fails. -/
def Only (P : TypeError → Prop) (x : Except TypeError α) : Prop :=
  ∀ e, x = .error e → P e

theorem Only.ok (a : α) : Only P (Except.ok a) := by
  intro e h
  cases h

theorem Only.error {e : TypeError} (h : P e) : Only P (Except.error e : Except TypeError α) := by
  intro e' he
  cases he
  exact h

/-- What holds of all such faults holds of the fault. -/
theorem Only.imp (hx : Only P x) (h : ∀ e, P e → Q e) : Only Q x :=
  fun e he => h e (hx e he)

/-- A chain fails with a fault of one of its links. -/
theorem Only.bind {f : α → Except TypeError β} (hx : Only P x) (hf : ∀ a, x = .ok a → Only P (f a)) :
    Only P (x >>= f) := by
  intro e h
  rcases Check.bind_eq_error_iff.1 h with h | ⟨a, ha, h⟩
  · exact hx e h
  · exact hf a ha e h

/-! ## Lookups and comparisons -/

section Leaves

variable {g : Globals} {Γ₀ Γ : Scope} {nodes : List Node}

/-- Types that are compared and at fault are different. -/
theorem only_expect (expected found : Ty) : Only (TypeError.OfExpr g Γ₀ nodes) (Ty.expect expected found) := by
  unfold Ty.expect
  split
  · exact .ok _
  · rename_i hne
    exact .error hne

/-- Arguments that are counted and at fault are another number than the callee takes. -/
theorem only_checkArity {callee : Callee} {expected found : Nat} (ht : g.Takes callee expected)
    (ha : Node.Applies nodes callee found) : Only (TypeError.OfExpr g Γ₀ nodes) (callee.checkArity expected found) := by
  unfold Callee.checkArity
  split
  · exact .ok _
  · rename_i hne
    exact .error ⟨hne, ht, ha⟩

/-- A variable that is looked up and not found is mentioned, and the first scope does not have it. -/
theorem only_lookup (hΓ : ∀ x ∈ Γ₀, x ∈ Γ) {x : VarName} (hx : Node.Mentions nodes x) :
    Only (TypeError.OfExpr g Γ₀ nodes) (Γ.lookup x) := by
  unfold Scope.lookup
  split
  · exact .ok _
  · rename_i hnone
    rw [Tables.getElem?_eq_none_iff] at hnone
    exact .error ⟨fun hmem => hnone (hΓ x hmem), hx⟩

/-- A structure that is looked up and not found is not declared. -/
theorem only_fields (s : StructName) : Only (TypeError.OfExpr g Γ₀ nodes) (g.structs.fields s) := by
  unfold StructTable.fields
  split
  · exact .ok _
  · rename_i hnone
    exact .error (Tables.getElem?_eq_none_iff.1 hnone)

/-- A function that is looked up and not found is called, and not defined. -/
theorem only_signature {f : FunName} {n : Nat} (hf : Node.Applies nodes (.func f) n) :
    Only (TypeError.OfExpr g Γ₀ nodes) (g.funs.signature f) := by
  unfold FunTable.signature
  split
  · exact .ok _
  · rename_i hnone
    exact .error ⟨Tables.getElem?_eq_none_iff.1 hnone, n, hf⟩

/-- Only a type that is no pointer cannot be followed. -/
theorem only_pointee (T : Ty) : Only (TypeError.OfExpr g Γ₀ nodes) T.pointee := by
  unfold Ty.pointee
  split
  · exact .ok _
  · rename_i hne
    exact .error fun target h => hne target h

/-- A field is missing in a structure that is declared, or the type is no structure. -/
theorem only_fieldOf (object : Ty) {f : FieldName} (hf : Node.Accesses nodes f) :
    Only (TypeError.OfExpr g Γ₀ nodes) (g.fieldOf object f) := by
  unfold Globals.fieldOf
  split
  · refine (only_fields _).bind fun decls hdecls => ?_
    split
    · exact .ok _
    · rename_i hnone
      have hne : ∀ d ∈ decls, d.name ≠ f := by simpa using hnone
      exact .error ⟨⟨decls, StructTable.fields_eq_ok_iff.1 hdecls, hne⟩, hf⟩
  · rename_i hne
    exact .error fun s h => hne s h

/-- Of the operands only the first one of a sum is at fault by itself. -/
theorem only_binaryOp_typeOf (op : BinaryOp) (left right : Ty) : Only (TypeError.OfExpr g Γ₀ nodes) (op.typeOf left right) := by
  unfold BinaryOp.typeOf
  split
  · split
    · exact (only_expect _ _).bind fun _ _ => .ok _
    · exact (only_expect _ _).bind fun _ _ => .ok _
    · rename_i hint hpointer
      exact .error ⟨rfl, hint, hpointer⟩
  · exact (only_expect _ _).bind fun _ _ => (only_expect _ _).bind fun _ _ => .ok _
  · exact (only_expect _ _).bind fun _ _ => (only_expect _ _).bind fun _ _ => .ok _
  · exact (only_expect _ _).bind fun _ _ => (only_expect _ _).bind fun _ _ => .ok _
  · exact (only_expect _ _).bind fun _ _ => .ok _
  · exact (only_expect _ _).bind fun _ _ => (only_expect _ _).bind fun _ _ => .ok _

end Leaves

/-! ## Places and expressions -/

section Expressions

variable {g : Globals} {Γ₀ Γ : Scope} {nodes : List Node}

/-- A place has no other faults than an expression. -/
theorem only_place_typeOf (hΓ : ∀ x ∈ Γ₀, x ∈ Γ) (l : Place) (hl : l.nodes ⊆ nodes) :
    Only (TypeError.OfExpr g Γ₀ nodes) (l.typeOf g Γ) := by
  have hself := hl l.mem_nodes_self
  induction l with
  | var x => exact only_lookup hΓ (Or.inr hself)
  | field base f ih =>
    have hbase : base.nodes ⊆ nodes := (List.append_subset.1 hl).1
    exact (ih hbase (hbase base.mem_nodes_self)).bind fun T _ => only_fieldOf T (Or.inr ⟨base, hself⟩)
  | deref pointer ih =>
    have hpointer : pointer.nodes ⊆ nodes := (List.append_subset.1 hl).1
    exact (ih hpointer (hpointer pointer.mem_nodes_self)).bind fun T _ => only_pointee T

mutual

/-- An expression has no other faults than those of expressions. -/
theorem only_typeOf (hΓ : ∀ x ∈ Γ₀, x ∈ Γ) : ∀ e : Expr, e.nodes ⊆ nodes →
    Only (TypeError.OfExpr g Γ₀ nodes) (e.typeOf g Γ).result
  | .int value, _ => by
    rw [Expr.result_typeOf_int]
    exact .ok _
  | .char value, _ => by
    rw [Expr.result_typeOf_char]
    exact .ok _
  | .bool value, _ => by
    rw [Expr.result_typeOf_bool]
    exact .ok _
  | .var x, he => by
    rw [Expr.result_typeOf_var]
    exact only_lookup hΓ (Or.inl (he (Expr.mem_nodes_self _)))
  | .malloc size, he => by
    rw [Expr.result_typeOf_malloc]
    have hsize : size.nodes ⊆ nodes := (List.append_subset.1 he).1
    exact (only_typeOf hΓ size hsize).bind fun _ _ => (only_expect _ _).bind fun _ _ => .ok _
  | .free pointer, he => by
    rw [Expr.result_typeOf_free]
    have hpointer : pointer.nodes ⊆ nodes := (List.append_subset.1 he).1
    exact (only_typeOf hΓ pointer hpointer).bind fun _ _ => (only_expect _ _).bind fun _ _ => .ok _
  | .sizeof ty, _ => by
    rw [Expr.result_typeOf_sizeof]
    exact .ok _
  | .binary op left right, he => by
    rw [Expr.result_typeOf_binary]
    obtain ⟨hleft, hright⟩ := List.append_subset.1 (List.append_subset.1 he).1
    exact (only_typeOf hΓ left hleft).bind fun _ _ => (only_typeOf hΓ right hright).bind fun _ _ => only_binaryOp_typeOf op _ _
  | .construct name arguments, he => by
    rw [Expr.result_typeOf_construct]
    have harguments : Expr.listNodes arguments ⊆ nodes := (List.append_subset.1 he).1
    have happlied : Node.Applies nodes (.struct name) arguments.length := ⟨arguments, he (Expr.mem_nodes_self _), rfl⟩
    refine (only_fields name).bind fun decls hdecls => ?_
    have htakes : g.Takes (.struct name) decls.length := ⟨decls, StructTable.fields_eq_ok_iff.1 hdecls, rfl⟩
    refine (only_checkArity htakes happlied).bind fun _ _ => ?_
    exact (only_checkArguments hΓ _ arguments harguments).bind fun _ _ => .ok _
  | .call name arguments, he => by
    rw [Expr.result_typeOf_call]
    have harguments : Expr.listNodes arguments ⊆ nodes := (List.append_subset.1 he).1
    have happlied : Node.Applies nodes (.func name) arguments.length := ⟨arguments, he (Expr.mem_nodes_self _), rfl⟩
    refine (only_signature happlied).bind fun sig hsig => ?_
    have htakes : g.Takes (.func name) sig.params.length := ⟨sig, FunTable.signature_eq_ok_iff.1 hsig, rfl⟩
    refine (only_checkArity htakes happlied).bind fun _ _ => ?_
    exact (only_checkArguments hΓ _ arguments harguments).bind fun _ _ => .ok _
  | .cast target operand, he => by
    rw [Expr.result_typeOf_cast]
    have hoperand : operand.nodes ⊆ nodes := (List.append_subset.1 he).1
    exact (only_typeOf hΓ operand hoperand).bind fun _ _ => .ok _
  | .addressOf l, he => by
    rw [Expr.result_typeOf_addressOf]
    have hl : l.nodes ⊆ nodes := (List.append_subset.1 he).1
    exact (only_place_typeOf hΓ l hl).bind fun _ _ => .ok _
  | .deref pointer, he => by
    rw [Expr.result_typeOf_deref]
    have hpointer : pointer.nodes ⊆ nodes := (List.append_subset.1 he).1
    exact (only_typeOf hΓ pointer hpointer).bind fun T _ => only_pointee T
  | .field object f, he => by
    rw [Expr.result_typeOf_field]
    have hobject : object.nodes ⊆ nodes := (List.append_subset.1 he).1
    have haccess : Node.Accesses nodes f := Or.inl ⟨object, he (Expr.mem_nodes_self _)⟩
    exact (only_typeOf hΓ object hobject).bind fun T _ => only_fieldOf T haccess

/-- Arguments have the faults of expressions, one after the other. -/
theorem only_checkArguments (hΓ : ∀ x ∈ Γ₀, x ∈ Γ) : ∀ (types : List Ty) (arguments : List Expr),
    Expr.listNodes arguments ⊆ nodes →
      Only (TypeError.OfExpr g Γ₀ nodes) (Expr.checkArguments g Γ types arguments).result
  | types, [], _ => by
    rw [Expr.result_checkArguments_nil]
    exact .ok _
  | [], _ :: _, _ => .ok _
  | expected :: types, e :: arguments, h => by
    rw [Expr.result_checkArguments_cons]
    obtain ⟨he, harguments⟩ := List.append_subset.1 h
    refine (only_typeOf hΓ e he).bind fun _ _ => (only_expect _ _).bind fun _ _ => ?_
    exact only_checkArguments hΓ types arguments harguments

end

end Expressions

/-! ## Statements -/

section Statements

variable {g : Globals} {returnType : Ty} {Γ₀ Γ : Scope} {nodes : List Node} {unlooped : List Stmt}

/-- A result with a fault of an expression, as a result of a statement. -/
theorem Only.ofStmt (hx : Only (TypeError.OfExpr g Γ₀ nodes) x) :
    Only (TypeError.OfStmt g returnType Γ₀ nodes unlooped) x :=
  hx.imp fun _ => TypeError.OfExpr.ofStmt

/-- A condition has the faults of expressions, as those of the statement around it. -/
theorem only_checkCondition (hΓ : ∀ x ∈ Γ₀, x ∈ Γ) {condition : Expr} (hc : condition.nodes ⊆ nodes) :
    Only (TypeError.OfStmt g returnType Γ₀ nodes unlooped) (condition.checkCondition g Γ).result := by
  rw [Expr.result_checkCondition]
  exact ((only_typeOf hΓ condition hc).bind fun _ _ => only_expect _ _).ofStmt

theorem only_checkFreed (hΓ : ∀ x ∈ Γ₀, x ∈ Γ) {pointer : Expr} (hp : pointer.nodes ⊆ nodes) :
    Only (TypeError.OfStmt g returnType Γ₀ nodes unlooped) (pointer.checkFreed g Γ).result := by
  rw [Expr.result_checkFreed]
  exact ((only_typeOf hΓ pointer hp).bind fun _ _ => only_expect _ _).ofStmt

/-- A statement has no other faults than those of statements. -/
theorem only_check (s : Stmt) {inLoop : Bool} (hΓ : ∀ x ∈ Γ₀, x ∈ Γ) (hs : s.nodes ⊆ nodes)
    (hu : inLoop = false → s.unlooped ⊆ unlooped) :
    Only (TypeError.OfStmt g returnType Γ₀ nodes unlooped) (s.check g returnType inLoop Γ).result := by
  have hself := hs s.mem_nodes_self
  induction s generalizing inLoop Γ with
  | expr value =>
    rw [Stmt.result_check_expr]
    have hvalue : value.nodes ⊆ nodes := (List.append_subset.1 hs).1
    exact (only_typeOf hΓ value hvalue).ofStmt.bind fun _ _ => .ok _
  | declare decl init =>
    rw [Stmt.result_check_declare]
    have hinit : init.nodes ⊆ nodes := (List.append_subset.1 hs).1
    by_cases hv : decl.ty.isVoid = true
    · obtain ⟨T, x⟩ := decl
      cases Ty.isVoid_eq_true_iff.1 hv
      exact .error ⟨init, hself⟩
    · rw [if_neg hv]
      exact (only_typeOf hΓ init hinit).ofStmt.bind fun _ _ => (only_expect _ _).ofStmt.bind fun _ _ => .ok _
  | assign target value =>
    rw [Stmt.result_check_assign]
    obtain ⟨htarget, hvalue⟩ := List.append_subset.1 (List.append_subset.1 hs).1
    refine (only_place_typeOf hΓ target htarget).ofStmt.bind fun _ _ => (only_typeOf hΓ value hvalue).ofStmt.bind fun _ _ => ?_
    exact (only_expect _ _).ofStmt.bind fun _ _ => .ok _
  | ifElse condition thenBranch elseBranch ihThen ihElse =>
    rw [Stmt.result_check_ifElse]
    obtain ⟨hc, hbranches⟩ := List.append_subset.1 (List.append_subset.1 hs).1
    obtain ⟨hthen, helse⟩ := List.append_subset.1 hbranches
    have hu' : inLoop = false → thenBranch.unlooped ⊆ unlooped ∧ elseBranch.unlooped ⊆ unlooped :=
      fun hl => List.append_subset.1 (List.cons_subset.1 (hu hl)).2
    refine (only_checkCondition hΓ hc).bind fun _ _ => ?_
    refine (ihThen hΓ hthen (fun hl => (hu' hl).1) (hthen thenBranch.mem_nodes_self)).bind fun _ _ => ?_
    exact (ihElse hΓ helse (fun hl => (hu' hl).2) (helse elseBranch.mem_nodes_self)).bind fun _ _ => .ok _
  | whileDo condition body ih =>
    rw [Stmt.result_check_whileDo]
    obtain ⟨hc, hbody⟩ := List.append_subset.1 (List.append_subset.1 hs).1
    refine (only_checkCondition hΓ hc).bind fun _ _ => ?_
    -- nothing in the body is outside the loop
    have hu' : true = false → body.unlooped ⊆ unlooped := fun h => absurd h Bool.true_eq_false.mp
    exact (ih hΓ hbody hu' (hbody body.mem_nodes_self)).bind fun _ _ => .ok _
  | breakLoop =>
    rw [Stmt.result_check_breakLoop]
    by_cases hl : inLoop = true
    · rw [if_pos hl]
      exact .ok _
    · rw [if_neg hl]
      exact .error (hu (Bool.eq_false_iff.2 hl) List.mem_cons_self)
  | continueLoop =>
    rw [Stmt.result_check_continueLoop]
    by_cases hl : inLoop = true
    · rw [if_pos hl]
      exact .ok _
    · rw [if_neg hl]
      exact .error (hu (Bool.eq_false_iff.2 hl) List.mem_cons_self)
  | returnVoid =>
    rw [Stmt.result_check_returnVoid]
    exact (only_expect _ _).ofStmt.bind fun _ _ => .ok _
  | returnValue value =>
    rw [Stmt.result_check_returnValue]
    have hvalue : value.nodes ⊆ nodes := (List.append_subset.1 hs).1
    exact (only_typeOf hΓ value hvalue).ofStmt.bind fun _ _ => (only_expect _ _).ofStmt.bind fun _ _ => .ok _
  | free pointer =>
    rw [Stmt.result_check_free]
    have hpointer : pointer.nodes ⊆ nodes := (List.append_subset.1 hs).1
    exact (only_checkFreed hΓ hpointer).bind fun _ _ => .ok _
  | seq first second ihFirst ihSecond =>
    rw [Stmt.result_check_seq]
    obtain ⟨hfirst, hsecond⟩ := List.append_subset.1 (List.append_subset.1 hs).1
    have hu' : inLoop = false → first.unlooped ⊆ unlooped ∧ second.unlooped ⊆ unlooped :=
      fun hl => List.append_subset.1 (List.cons_subset.1 (hu hl)).2
    refine (ihFirst hΓ hfirst (fun hl => (hu' hl).1) (hfirst first.mem_nodes_self)).bind fun o ho => ?_
    by_cases hr : o.returns = true
    · rw [if_pos hr]
      exact .error ⟨first, second, inLoop, Γ, o, hself, ho, hr⟩
    · rw [if_neg hr]
      have hΓ' : ∀ x ∈ Γ₀, x ∈ o.scope := fun x hx => Stmt.mem_scope_of_check ho (hΓ x hx)
      exact ihSecond hΓ' hsecond (fun hl => (hu' hl).2) (hsecond second.mem_nodes_self)

/-- The fault of a statement says what is true of the statement. -/
theorem ofStmt_of_check {s : Stmt} {inLoop : Bool} {e : TypeError}
    (h : (s.check g returnType inLoop Γ).result = .error e) : e.OfStmt g returnType Γ s.nodes s.unlooped :=
  only_check s (fun _ hx => hx) (List.Subset.refl _) (fun _ => List.Subset.refl _) e h

end Statements

end Faults

end CoreC
