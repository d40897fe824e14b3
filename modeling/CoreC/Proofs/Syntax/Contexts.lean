import CoreC.Proofs.Syntax.Nodes

/-!
# Texts with a hole

A context is an expression, a statement, a function or a program in which one expression is left open; filling it puts an
expression there. There is one context for each place where an expression can stand, at any depth: an expression occurs in a
text exactly if the text is some context filled with it (`Expr.mem_nodes_iff`, `Program.occurs_iff`). To replace one
occurrence of an expression by another expression is therefore to fill the same context with the other one.
-/

namespace CoreC

/-- An expression with a hole for another one. In a list of arguments the hole has some arguments before it and some
behind it. -/
inductive Expr.Context where
  | hole
  | malloc (size : Context)
  | free (pointer : Context)
  | binaryLeft (op : BinaryOp) (left : Context) (right : Expr)
  | binaryRight (op : BinaryOp) (left : Expr) (right : Context)
  | construct (name : StructName) (before : List Expr) (argument : Context) (behind : List Expr)
  | call (name : FunName) (before : List Expr) (argument : Context) (behind : List Expr)
  | cast (target : Ty) (operand : Context)
  | deref (pointer : Context)
  | field (object : Context) (name : FieldName)

/-- The context with an expression in its hole. -/
def Expr.Context.fill (C : Expr.Context) (e : Expr) : Expr :=
  match C with
  | .hole => e
  | .malloc size => .malloc (size.fill e)
  | .free pointer => .free (pointer.fill e)
  | .binaryLeft op left right => .binary op (left.fill e) right
  | .binaryRight op left right => .binary op left (right.fill e)
  | .construct name before argument behind => .construct name (before ++ argument.fill e :: behind)
  | .call name before argument behind => .call name (before ++ argument.fill e :: behind)
  | .cast target operand => .cast target (operand.fill e)
  | .deref pointer => .deref (pointer.fill e)
  | .field object name => .field (object.fill e) name

/-- A statement with a hole for an expression. -/
inductive Stmt.Context where
  | expr (value : Expr.Context)
  | declare (decl : Decl .var) (init : Expr.Context)
  | assign (target : Place) (value : Expr.Context)
  | ifCondition (condition : Expr.Context) (thenBranch elseBranch : Stmt)
  | ifThen (condition : Expr) (thenBranch : Context) (elseBranch : Stmt)
  | ifElse (condition : Expr) (thenBranch : Stmt) (elseBranch : Context)
  | whileCondition (condition : Expr.Context) (body : Stmt)
  | whileBody (condition : Expr) (body : Context)
  | returnValue (value : Expr.Context)
  | free (pointer : Expr.Context)
  | seqFirst (first : Context) (second : Stmt)
  | seqSecond (first : Stmt) (second : Context)

/-- The context with an expression in its hole. -/
def Stmt.Context.fill (C : Stmt.Context) (e : Expr) : Stmt :=
  match C with
  | .expr value => .expr (value.fill e)
  | .declare decl init => .declare decl (init.fill e)
  | .assign target value => .assign target (value.fill e)
  | .ifCondition condition thenBranch elseBranch => .ifElse (condition.fill e) thenBranch elseBranch
  | .ifThen condition thenBranch elseBranch => .ifElse condition (thenBranch.fill e) elseBranch
  | .ifElse condition thenBranch elseBranch => .ifElse condition thenBranch (elseBranch.fill e)
  | .whileCondition condition body => .whileDo (condition.fill e) body
  | .whileBody condition body => .whileDo condition (body.fill e)
  | .returnValue value => .returnValue (value.fill e)
  | .free pointer => .free (pointer.fill e)
  | .seqFirst first second => .seq (first.fill e) second
  | .seqSecond first second => .seq first (second.fill e)

/-- A function with a hole in its body. -/
structure FunDef.Context where
  returnType : Ty
  name : FunName
  params : List (Decl .var)
  body : Stmt.Context

/-- The context with an expression in its hole. -/
def FunDef.Context.fill (F : FunDef.Context) (e : Expr) : FunDef where
  returnType := F.returnType
  name := F.name
  params := F.params
  body := F.body.fill e

/-- A program with a hole in the body of one of its functions. -/
structure Program.Context where
  structs : List StructDecl
  before : List FunDef
  function : FunDef.Context
  behind : List FunDef

/-- The context with an expression in its hole. -/
def Program.Context.fill (C : Program.Context) (e : Expr) : Program where
  structs := C.structs
  funs := C.before ++ C.function.fill e :: C.behind

/-! ## What fills a hole occurs -/

/-- A node of one of some expressions is a node of all of them together. -/
theorem Expr.mem_listNodes_of_mem {n : Node} {a : Expr} {es : List Expr} (ha : a ∈ es) (hn : n ∈ a.nodes) :
    n ∈ Expr.listNodes es := by
  induction es with
  | nil => cases ha
  | cons a' es ih =>
    rcases List.mem_cons.1 ha with rfl | ha
    · exact List.mem_append_left _ hn
    · exact List.mem_append_right _ (ih ha)

/-- What fills a context stands in the whole. -/
theorem Expr.Context.mem_nodes_fill (C : Expr.Context) (e : Expr) : .expr e ∈ (C.fill e).nodes := by
  induction C with
  | hole => exact e.mem_nodes_self
  | malloc _ ih | free _ ih | cast _ _ ih | deref _ ih | field _ _ ih => exact List.mem_append_left _ ih
  | binaryLeft _ _ _ ih => exact List.mem_append_left _ (List.mem_append_left _ ih)
  | binaryRight _ _ _ ih => exact List.mem_append_left _ (List.mem_append_right _ ih)
  | construct _ before argument behind ih | call _ before argument behind ih =>
    have hmem : argument.fill e ∈ before ++ argument.fill e :: behind := List.mem_append_right _ List.mem_cons_self
    exact List.mem_append_left _ (mem_listNodes_of_mem hmem ih)

theorem Stmt.Context.mem_nodes_fill (C : Stmt.Context) (e : Expr) : .expr e ∈ (C.fill e).nodes := by
  induction C with
  | expr value | declare _ value | returnValue value | free value => exact List.mem_append_left _ (value.mem_nodes_fill e)
  | assign _ value => exact List.mem_append_left _ (List.mem_append_right _ (value.mem_nodes_fill e))
  | ifCondition condition _ _ | whileCondition condition _ =>
    exact List.mem_append_left _ (List.mem_append_left _ (condition.mem_nodes_fill e))
  | ifThen _ _ _ ih => exact List.mem_append_left _ (List.mem_append_right _ (List.mem_append_left _ ih))
  | ifElse _ _ _ ih => exact List.mem_append_left _ (List.mem_append_right _ (List.mem_append_right _ ih))
  | whileBody _ _ ih | seqSecond _ _ ih => exact List.mem_append_left _ (List.mem_append_right _ ih)
  | seqFirst _ _ ih => exact List.mem_append_left _ (List.mem_append_left _ ih)

/-! ## What occurs fills a hole -/

mutual

/-- What stands in an expression stands there in a context. -/
theorem Expr.exists_context_of_mem_nodes (a : Expr) {e : Expr} (h : .expr e ∈ a.nodes) :
    ∃ C : Expr.Context, C.fill e = a := by
  rw [Expr.nodes.eq_def, List.mem_append, List.mem_singleton] at h
  rcases h.symm with h | h
  · cases h
    exact ⟨.hole, rfl⟩
  cases a with
  | int | char | bool | var | sizeof => cases h
  | malloc size =>
    obtain ⟨C, rfl⟩ := Expr.exists_context_of_mem_nodes size h
    exact ⟨.malloc C, rfl⟩
  | free pointer =>
    obtain ⟨C, rfl⟩ := Expr.exists_context_of_mem_nodes pointer h
    exact ⟨.free C, rfl⟩
  | binary op left right =>
    rcases List.mem_append.1 h with h | h
    · obtain ⟨C, rfl⟩ := Expr.exists_context_of_mem_nodes left h
      exact ⟨.binaryLeft op C right, rfl⟩
    · obtain ⟨C, rfl⟩ := Expr.exists_context_of_mem_nodes right h
      exact ⟨.binaryRight op left C, rfl⟩
  | construct name arguments =>
    obtain ⟨before, C, behind, rfl⟩ := Expr.exists_context_of_mem_listNodes arguments h
    exact ⟨.construct name before C behind, rfl⟩
  | call name arguments =>
    obtain ⟨before, C, behind, rfl⟩ := Expr.exists_context_of_mem_listNodes arguments h
    exact ⟨.call name before C behind, rfl⟩
  | cast target operand =>
    obtain ⟨C, rfl⟩ := Expr.exists_context_of_mem_nodes operand h
    exact ⟨.cast target C, rfl⟩
  | addressOf place =>
    obtain ⟨l, hl⟩ := place.exists_place_of_mem_nodes h
    cases hl
  | deref pointer =>
    obtain ⟨C, rfl⟩ := Expr.exists_context_of_mem_nodes pointer h
    exact ⟨.deref C, rfl⟩
  | field object f =>
    obtain ⟨C, rfl⟩ := Expr.exists_context_of_mem_nodes object h
    exact ⟨.field C f, rfl⟩

theorem Expr.exists_context_of_mem_listNodes (es : List Expr) {e : Expr} (h : .expr e ∈ Expr.listNodes es) :
    ∃ (before : List Expr) (C : Expr.Context) (behind : List Expr), before ++ C.fill e :: behind = es := by
  cases es with
  | nil => cases h
  | cons a es =>
    rcases List.mem_append.1 h with h | h
    · obtain ⟨C, rfl⟩ := Expr.exists_context_of_mem_nodes a h
      exact ⟨[], C, es, rfl⟩
    · obtain ⟨before, C, behind, rfl⟩ := Expr.exists_context_of_mem_listNodes es h
      exact ⟨a :: before, C, behind, rfl⟩

end

/-- An expression that occurs in a statement stands in one of its parts. -/
theorem Node.expr_mem_parts {e : Expr} {s : Stmt} {parts : List Node} (h : .expr e ∈ parts ++ [.stmt s]) :
    .expr e ∈ parts := by
  simpa using h

theorem Stmt.exists_context_of_mem_nodes (s : Stmt) {e : Expr} (h : .expr e ∈ s.nodes) :
    ∃ C : Stmt.Context, C.fill e = s := by
  induction s with
  | breakLoop | continueLoop | returnVoid => cases Node.expr_mem_parts h
  | expr value =>
    obtain ⟨C, rfl⟩ := value.exists_context_of_mem_nodes (Node.expr_mem_parts h)
    exact ⟨.expr C, rfl⟩
  | declare decl init =>
    obtain ⟨C, rfl⟩ := init.exists_context_of_mem_nodes (Node.expr_mem_parts h)
    exact ⟨.declare decl C, rfl⟩
  | assign target value =>
    rcases List.mem_append.1 (Node.expr_mem_parts h) with h | h
    · obtain ⟨l, hl⟩ := target.exists_place_of_mem_nodes h
      cases hl
    · obtain ⟨C, rfl⟩ := value.exists_context_of_mem_nodes h
      exact ⟨.assign target C, rfl⟩
  | ifElse condition thenBranch elseBranch ihThen ihElse =>
    rcases List.mem_append.1 (Node.expr_mem_parts h) with h | h
    · obtain ⟨C, rfl⟩ := condition.exists_context_of_mem_nodes h
      exact ⟨.ifCondition C thenBranch elseBranch, rfl⟩
    · rcases List.mem_append.1 h with h | h
      · obtain ⟨C, rfl⟩ := ihThen h
        exact ⟨.ifThen condition C elseBranch, rfl⟩
      · obtain ⟨C, rfl⟩ := ihElse h
        exact ⟨.ifElse condition thenBranch C, rfl⟩
  | whileDo condition body ih =>
    rcases List.mem_append.1 (Node.expr_mem_parts h) with h | h
    · obtain ⟨C, rfl⟩ := condition.exists_context_of_mem_nodes h
      exact ⟨.whileCondition C body, rfl⟩
    · obtain ⟨C, rfl⟩ := ih h
      exact ⟨.whileBody condition C, rfl⟩
  | returnValue value =>
    obtain ⟨C, rfl⟩ := value.exists_context_of_mem_nodes (Node.expr_mem_parts h)
    exact ⟨.returnValue C, rfl⟩
  | free pointer =>
    obtain ⟨C, rfl⟩ := pointer.exists_context_of_mem_nodes (Node.expr_mem_parts h)
    exact ⟨.free C, rfl⟩
  | seq first second ihFirst ihSecond =>
    rcases List.mem_append.1 (Node.expr_mem_parts h) with h | h
    · obtain ⟨C, rfl⟩ := ihFirst h
      exact ⟨.seqFirst C second, rfl⟩
    · obtain ⟨C, rfl⟩ := ihSecond h
      exact ⟨.seqSecond first C, rfl⟩

/-! ## Occurrences are fillings -/

/-- An expression occurs in another one exactly if that is some context filled with it. -/
theorem Expr.mem_nodes_iff {e a : Expr} : .expr e ∈ a.nodes ↔ ∃ C : Expr.Context, C.fill e = a := by
  constructor
  · exact a.exists_context_of_mem_nodes
  · rintro ⟨C, rfl⟩
    exact C.mem_nodes_fill e

/-- An expression occurs in the body of a function of a program exactly if the program is some context filled with it. -/
theorem Program.occurs_iff {e : Expr} {p : Program} :
    (∃ f ∈ p.funs, .expr e ∈ f.body.nodes) ↔ ∃ C : Program.Context, C.fill e = p := by
  constructor
  · rintro ⟨f, hf, he⟩
    obtain ⟨body, hbody⟩ := f.body.exists_context_of_mem_nodes he
    obtain ⟨before, behind, hfuns⟩ := List.append_of_mem hf
    have hfill : (FunDef.Context.mk f.returnType f.name f.params body).fill e = f := by
      rw [FunDef.Context.fill, hbody]
    refine ⟨⟨p.structs, before, ⟨f.returnType, f.name, f.params, body⟩, behind⟩, ?_⟩
    rw [Program.Context.fill, hfill, ← hfuns]
  · rintro ⟨C, rfl⟩
    refine ⟨C.function.fill e, List.mem_append_right _ List.mem_cons_self, ?_⟩
    exact C.function.body.mem_nodes_fill e

end CoreC
