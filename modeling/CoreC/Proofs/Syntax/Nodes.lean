import CoreC.Program
import CoreC.TypeError

/-!
# What occurs in a text

The nodes of a place, an expression or a statement: everything that stands in it, parts before wholes and from left to
right, and itself at the end. Whatever is said about a text without regard to where in it something stands is said about
its nodes: a variable is mentioned, a field is accessed, a callee is applied.

Some things depend on where a statement stands: whether a loop is around it (`Stmt.unlooped`), whether what it declares is
seen behind the whole (`Stmt.spine`), and whether a `return` is met on every way through (`Stmt.alwaysReturns`).
-/

namespace CoreC

/-- A node of a text. -/
inductive Node where
  | expr (e : Expr)
  | place (l : Place)
  | stmt (s : Stmt)

/-- The nodes of a place. -/
def Place.nodes (l : Place) : List Node :=
  (match l with
    | .var _ => []
    | .field base _ => base.nodes
    | .deref pointer => pointer.nodes) ++ [.place l]

mutual

/-- The nodes of an expression. -/
def Expr.nodes (e : Expr) : List Node :=
  (match e with
    | .int _ | .char _ | .bool _ | .var _ | .sizeof _ => []
    | .malloc part | .free part | .cast _ part | .deref part | .field part _ => part.nodes
    | .binary _ left right => left.nodes ++ right.nodes
    | .construct _ arguments | .call _ arguments => Expr.listNodes arguments
    | .addressOf place => place.nodes) ++ [.expr e]

/-- The nodes of some expressions, one behind the other. -/
def Expr.listNodes : List Expr → List Node
  | [] => []
  | e :: es => e.nodes ++ Expr.listNodes es

end

/-- The nodes of a statement. -/
def Stmt.nodes (s : Stmt) : List Node :=
  (match s with
    | .breakLoop | .continueLoop | .returnVoid => []
    | .expr value | .declare _ value | .returnValue value | .free value => value.nodes
    | .assign target value => target.nodes ++ value.nodes
    | .ifElse condition thenBranch elseBranch => condition.nodes ++ (thenBranch.nodes ++ elseBranch.nodes)
    | .whileDo condition body => condition.nodes ++ body.nodes
    | .seq first second => first.nodes ++ second.nodes) ++ [.stmt s]

theorem Place.mem_nodes_self (l : Place) : .place l ∈ l.nodes := by
  rw [Place.nodes.eq_def]
  exact List.mem_append_right _ (List.mem_singleton_self _)

theorem Expr.mem_nodes_self (e : Expr) : .expr e ∈ e.nodes := by
  rw [Expr.nodes.eq_def]
  exact List.mem_append_right _ (List.mem_singleton_self _)

theorem Stmt.mem_nodes_self (s : Stmt) : .stmt s ∈ s.nodes := by
  rw [Stmt.nodes.eq_def]
  exact List.mem_append_right _ (List.mem_singleton_self _)

/-- Only places stand in a place. -/
theorem Place.exists_place_of_mem_nodes (l : Place) {n : Node} (h : n ∈ l.nodes) : ∃ l', n = .place l' := by
  rw [Place.nodes.eq_def, List.mem_append, List.mem_singleton] at h
  rcases h with h | h
  · cases l with
    | var x => cases h
    | field base f => exact base.exists_place_of_mem_nodes h
    | deref pointer => exact pointer.exists_place_of_mem_nodes h
  · exact ⟨l, h⟩

mutual

/-- No statement stands in an expression. -/
theorem Expr.stmt_not_mem_nodes (s : Stmt) (e : Expr) : .stmt s ∉ e.nodes := by
  intro h
  rw [Expr.nodes.eq_def, List.mem_append, List.mem_singleton] at h
  rcases h with h | h
  · cases e with
    | int | char | bool | var | sizeof => cases h
    | malloc part => exact Expr.stmt_not_mem_nodes s part h
    | free part => exact Expr.stmt_not_mem_nodes s part h
    | cast _ part => exact Expr.stmt_not_mem_nodes s part h
    | deref part => exact Expr.stmt_not_mem_nodes s part h
    | field part _ => exact Expr.stmt_not_mem_nodes s part h
    | binary _ left right =>
      rcases List.mem_append.1 h with h | h
      · exact Expr.stmt_not_mem_nodes s left h
      · exact Expr.stmt_not_mem_nodes s right h
    | construct _ arguments => exact Expr.stmt_not_mem_listNodes s arguments h
    | call _ arguments => exact Expr.stmt_not_mem_listNodes s arguments h
    | addressOf place =>
      obtain ⟨l, hl⟩ := place.exists_place_of_mem_nodes h
      cases hl
  · cases h

theorem Expr.stmt_not_mem_listNodes (s : Stmt) (es : List Expr) : .stmt s ∉ Expr.listNodes es := by
  intro h
  cases es with
  | nil => cases h
  | cons e es =>
    rcases List.mem_append.1 h with h | h
    · exact Expr.stmt_not_mem_nodes s e h
    · exact Expr.stmt_not_mem_listNodes s es h

end

namespace Node

/-- A variable is mentioned: it is read as an expression, or a place begins with it. -/
def Mentions (nodes : List Node) (x : VarName) : Prop :=
  .expr (.var x) ∈ nodes ∨ .place (.var x) ∈ nodes

/-- A field is accessed, of a value or of a place. -/
def Accesses (nodes : List Node) (f : FieldName) : Prop :=
  (∃ object, .expr (.field object f) ∈ nodes) ∨ ∃ base, .place (.field base f) ∈ nodes

/-- A structure is made or a function is called with a number of arguments. -/
def Applies (nodes : List Node) : Callee → Nat → Prop
  | .struct s, n => ∃ arguments : List Expr, .expr (.construct s arguments) ∈ nodes ∧ arguments.length = n
  | .func f, n => ∃ arguments : List Expr, .expr (.call f arguments) ∈ nodes ∧ arguments.length = n

end Node

/-! ## The parts of an expression -/

/-- The expressions an expression is made of, from left to right. A place is not one of them. -/
def Expr.parts : Expr → List Expr
  | .int _ | .char _ | .bool _ | .var _ | .sizeof _ | .addressOf _ => []
  | .malloc part | .free part | .cast _ part | .deref part | .field part _ => [part]
  | .binary _ left right => [left, right]
  | .construct _ arguments | .call _ arguments => arguments

/-- The expression at a node, if it is one. -/
def Node.expr? : Node → Option Expr
  | .expr e => some e
  | .place _ | .stmt _ => none

/-- The expressions in an expression, parts before wholes and from left to right. -/
def Expr.postorder (e : Expr) : List Expr :=
  e.nodes.filterMap Node.expr?

theorem Expr.listNodes_eq_flatMap (es : List Expr) : Expr.listNodes es = es.flatMap Expr.nodes := by
  induction es with
  | nil => rfl
  | cons e es ih => rw [Expr.listNodes, ih, List.flatMap_cons]

/-- The expressions in an expression are those in its parts, one part behind the other, and itself at the end. -/
theorem Expr.postorder_eq (e : Expr) : e.postorder = e.parts.flatMap Expr.postorder ++ [e] := by
  have hplace : ∀ l : Place, l.nodes.filterMap Node.expr? = [] := by
    intro l
    rw [List.filterMap_eq_nil_iff]
    intro n hn
    obtain ⟨l', rfl⟩ := l.exists_place_of_mem_nodes hn
    rfl
  rw [Expr.postorder, Expr.nodes.eq_def, List.filterMap_append]
  congr 1
  cases e with
  | addressOf l => exact hplace l
  | construct name arguments => exact (congrArg _ (listNodes_eq_flatMap arguments)).trans List.filterMap_flatMap
  | call name arguments => exact (congrArg _ (listNodes_eq_flatMap arguments)).trans List.filterMap_flatMap
  | _ => simp [Expr.parts, Expr.postorder]

theorem Expr.sizeOf_lt_of_mem_parts {e part : Expr} (h : part ∈ e.parts) : sizeOf part < sizeOf e := by
  cases e with
  | int | char | bool | var | sizeof | addressOf => cases h
  | malloc | free | cast | deref | field =>
    rw [List.mem_singleton.1 h]
    simp only [malloc.sizeOf_spec, free.sizeOf_spec, cast.sizeOf_spec, deref.sizeOf_spec, field.sizeOf_spec]
    omega
  | binary op left right =>
    rw [binary.sizeOf_spec]
    rcases List.mem_cons.1 h with rfl | h
    · omega
    · rw [List.mem_singleton.1 h]
      omega
  | construct name arguments | call name arguments =>
    have hlt : sizeOf part < sizeOf arguments := List.sizeOf_lt_of_mem h
    simp only [construct.sizeOf_spec, call.sizeOf_spec]
    omega

/-- What holds of an expression as soon as it holds of its parts holds of every expression. -/
theorem Expr.induction_on_parts {P : Expr → Prop} (e : Expr) (step : ∀ e, (∀ part ∈ e.parts, P part) → P e) : P e :=
  step e fun part _ => Expr.induction_on_parts part step
termination_by sizeOf e
decreasing_by exact Expr.sizeOf_lt_of_mem_parts ‹_›

/-- The statements in a statement that are not inside a loop of it. -/
def Stmt.unlooped (s : Stmt) : List Stmt :=
  s :: (match s with
    | .ifElse _ thenBranch elseBranch => thenBranch.unlooped ++ elseBranch.unlooped
    | .seq first second => first.unlooped ++ second.unlooped
    | _ => [])

/-- Every `break` and every `continue` in the statement is inside a loop of it. -/
def Stmt.NoStray (s : Stmt) : Prop :=
  .breakLoop ∉ s.unlooped ∧ .continueLoop ∉ s.unlooped

/-- The declarations of a statement that are seen behind it, in their order: those that stand in no branch and in no
loop. -/
def Stmt.spine : Stmt → List (Decl .var)
  | .declare decl _ => [decl]
  | .seq first second => first.spine ++ second.spine
  | _ => []

/-- Whether a statement returns on every way through, as far as its form shows: a loop never does, because its body may run
no time at all. -/
def Stmt.alwaysReturns : Stmt → Bool
  | .returnVoid | .returnValue _ => true
  | .ifElse _ thenBranch elseBranch => thenBranch.alwaysReturns && elseBranch.alwaysReturns
  | .seq _ second => second.alwaysReturns
  | _ => false

/-- There is no `return` in the statement, with a value or without. -/
def Stmt.NoReturn (s : Stmt) : Prop :=
  .stmt .returnVoid ∉ s.nodes ∧ ∀ value, .stmt (.returnValue value) ∉ s.nodes

/-! ## The parts of a statement

What is said about all statements in a statement, at any depth, comes down to those it is made of (`Stmt.parts`).
-/

/-- The statements a statement is made of. -/
def Stmt.parts : Stmt → List Stmt
  | .ifElse _ thenBranch elseBranch => [thenBranch, elseBranch]
  | .whileDo _ body => [body]
  | .seq first second => [first, second]
  | _ => []

/-- Whether a statement is a loop, so that its parts are inside one. -/
def Stmt.isLoop : Stmt → Bool
  | .whileDo _ _ => true
  | _ => false

/-- What holds of a statement as soon as it holds of its parts holds of every statement. -/
theorem Stmt.induction_on_parts {P : Stmt → Prop} (s : Stmt) (step : ∀ s, (∀ part ∈ s.parts, P part) → P s) : P s := by
  induction s with
  | ifElse condition thenBranch elseBranch ihThen ihElse =>
    apply step
    exact List.forall_mem_cons.2 ⟨ihThen, List.forall_mem_singleton.2 ihElse⟩
  | whileDo condition body ih =>
    apply step
    exact List.forall_mem_singleton.2 ih
  | seq first second ihFirst ihSecond =>
    apply step
    exact List.forall_mem_cons.2 ⟨ihFirst, List.forall_mem_singleton.2 ihSecond⟩
  | _ =>
    apply step
    exact List.forall_mem_nil _

/-- The statements in a statement are itself and those in its parts. -/
theorem Stmt.stmt_mem_nodes_iff {s t : Stmt} : .stmt t ∈ s.nodes ↔ t = s ∨ ∃ part ∈ s.parts, .stmt t ∈ part.nodes := by
  have hplace : ∀ l : Place, .stmt t ∉ l.nodes := by
    intro l h
    obtain ⟨_, hl⟩ := l.exists_place_of_mem_nodes h
    cases hl
  rw [Stmt.nodes.eq_def, List.mem_append, List.mem_singleton, or_comm]
  cases s <;> simp [Stmt.parts, Expr.stmt_not_mem_nodes, hplace]

/-- The statements outside the loops of a statement are itself and, if it is no loop, those of its parts. -/
theorem Stmt.mem_unlooped_iff {s t : Stmt} :
    t ∈ s.unlooped ↔ t = s ∨ s.isLoop = false ∧ ∃ part ∈ s.parts, t ∈ part.unlooped := by
  rw [Stmt.unlooped.eq_def, List.mem_cons]
  cases s <;> simp [Stmt.parts, Stmt.isLoop]

/-- What is outside the loops of a part of a statement that is no loop is outside its loops. -/
theorem Stmt.unlooped_subset_of_mem_parts {s part : Stmt} (hs : s.isLoop = false) (hpart : part ∈ s.parts) :
    part.unlooped ⊆ s.unlooped := by
  intro t ht
  exact Stmt.mem_unlooped_iff.2 (Or.inr ⟨hs, part, hpart, ht⟩)

/-- What stands in a statement of a statement stands in the whole. -/
theorem Stmt.mem_nodes_trans {s t u : Stmt} (ht : .stmt t ∈ s.nodes) (hu : .stmt u ∈ t.nodes) : .stmt u ∈ s.nodes := by
  induction s using Stmt.induction_on_parts with
  | step s ih =>
    rcases Stmt.stmt_mem_nodes_iff.1 ht with rfl | ⟨part, hpart, ht⟩
    · exact hu
    · exact Stmt.stmt_mem_nodes_iff.2 (Or.inr ⟨part, hpart, ih part hpart ht⟩)

/-- What is outside the loops of a statement stands in it. -/
theorem Stmt.mem_nodes_of_mem_unlooped {s t : Stmt} (h : t ∈ s.unlooped) : .stmt t ∈ s.nodes := by
  induction s using Stmt.induction_on_parts with
  | step s ih =>
    rcases Stmt.mem_unlooped_iff.1 h with rfl | ⟨-, part, hpart, h⟩
    · exact t.mem_nodes_self
    · exact Stmt.stmt_mem_nodes_iff.2 (Or.inr ⟨part, hpart, ih part hpart h⟩)

/-- Where there is no `return`, there is none in a part. -/
theorem Stmt.NoReturn.of_mem_parts {s part : Stmt} (hs : s.NoReturn) (hpart : part ∈ s.parts) : part.NoReturn := by
  constructor
  · intro h
    exact hs.1 (Stmt.stmt_mem_nodes_iff.2 (Or.inr ⟨part, hpart, h⟩))
  · intro value h
    exact hs.2 value (Stmt.stmt_mem_nodes_iff.2 (Or.inr ⟨part, hpart, h⟩))

/-- A statement without a `return` can be left without one. -/
theorem Stmt.NoReturn.alwaysReturns_eq_false {s : Stmt} (hs : s.NoReturn) : s.alwaysReturns = false := by
  induction s with
  | returnVoid => exact absurd (Stmt.mem_nodes_self _) hs.1
  | returnValue value => exact absurd (Stmt.mem_nodes_self _) (hs.2 value)
  | ifElse condition thenBranch elseBranch ihThen _ =>
    have hthen : thenBranch.alwaysReturns = false := ihThen (hs.of_mem_parts List.mem_cons_self)
    rw [Stmt.alwaysReturns, hthen, Bool.false_and]
  | seq first second _ ihSecond => exact ihSecond (hs.of_mem_parts (List.mem_cons_of_mem _ List.mem_cons_self))
  | _ => rfl

/-- Where there is no `break` and no `continue`, none is stray in any statement. -/
theorem Stmt.noStray_of_mem_nodes {s t : Stmt} (ht : .stmt t ∈ s.nodes) (hbreak : .stmt .breakLoop ∉ s.nodes)
    (hcontinue : .stmt .continueLoop ∉ s.nodes) : t.NoStray := by
  constructor
  · intro h
    exact hbreak (Stmt.mem_nodes_trans ht (Stmt.mem_nodes_of_mem_unlooped h))
  · intro h
    exact hcontinue (Stmt.mem_nodes_trans ht (Stmt.mem_nodes_of_mem_unlooped h))

end CoreC
