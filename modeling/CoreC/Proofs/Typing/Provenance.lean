import CoreC.Proofs.Syntax.Contexts
import CoreC.Proofs.Typing.Blame

/-!
# Where the types in a fault come from

Types are written in a program: in its declarations, where a variable is declared, and in conversions and measures. The
checker makes its own types of these, of the built-in ones and of the structures that are declared: a pointer to a type, what
a pointer points at, the type of a field. It invents no structure. So the types in a fault are made of structures that are
named in the program (`Program.names_of_fault`).

This is shown for any property of names that all names in the program have (`Ty.Over`). What is found in an environment of
such types is of such types, whether it is a value or a fault (`Yields`); this goes through a chain of checks link by link.
-/

namespace CoreC

/-- The structures named in a type, of which there is one at most. -/
def Ty.names : Ty → List StructName
  | .pointer target => target.names
  | .struct name => [name]
  | .void | .int | .char | .bool => []

/-- The types a fault speaks about. -/
def TypeError.types : TypeError → List Ty
  | .typeMismatch expected found => [expected, found]
  | .notAPointer found | .notAStruct found => [found]
  | .invalidOperand _ operand => [operand]
  | .missingReturn _ returnType => [returnType]
  | _ => []

/-- The type that is written at a node. -/
def Node.written? : Node → Option Ty
  | .expr (.sizeof ty) => some ty
  | .expr (.cast target _) => some target
  | .stmt (.declare decl _) => some decl.ty
  | _ => none

/-- The types that are written in a function: its return type, those of its parameters, and those in its body. -/
def FunDef.types (f : FunDef) : List Ty :=
  f.returnType :: (f.params.map Decl.ty ++ f.body.nodes.filterMap Node.written?)

/-- The types that are written in a program. -/
def Program.types (p : Program) : List Ty :=
  p.structs.flatMap (fun s => s.fields.map Decl.ty) ++ p.funs.flatMap FunDef.types

/-- The structures that are named in a program, by their declarations and in types. -/
def Program.structNames (p : Program) : List StructName :=
  p.structs.map StructDecl.name ++ p.types.flatMap Ty.names

/-! ## Types over some names -/

section

variable (P : StructName → Prop)

/-- A type is made of structures whose names have a property. -/
def Ty.Over (T : Ty) : Prop :=
  ∀ name ∈ T.names, P name

/-- A fault speaks about such types only. -/
def TypeError.Over (e : TypeError) : Prop :=
  ∀ T ∈ e.types, T.Over P

/-- The tables have such structures only, and such types only. -/
structure Globals.Over (g : Globals) : Prop where
  structs : ∀ (s : StructName) (fields : List (Decl .field)), g.structs[s]? = some fields →
    P s ∧ ∀ d ∈ fields, d.ty.Over P
  funs : ∀ (f : FunName) (signature : Signature), g.funs[f]? = some signature →
    signature.returnType.Over P ∧ ∀ T ∈ signature.params, T.Over P

/-- The variables of a scope are of such types. -/
def Scope.Over (Γ : Scope) : Prop :=
  ∀ (x : VarName) (T : Ty), Γ[x]? = some T → T.Over P

/-- The types written at some nodes are such types. -/
def Node.Over (nodes : List Node) : Prop :=
  ∀ n ∈ nodes, ∀ T, n.written? = some T → T.Over P

/-- A result is a value of a kind, or a fault that speaks about such types. -/
def Yields {α : Type} (Q : α → Prop) : Except TypeError α → Prop
  | .ok a => Q a
  | .error e => e.Over P

end

/-- A chain yields what its last link does. -/
theorem Yields.bind {P : StructName → Prop} {α β : Type} {Q : α → Prop} {R : β → Prop} {x : Except TypeError α} {f : α → Except TypeError β}
    (hx : Yields P Q x) (hf : ∀ a, Q a → Yields P R (f a)) : Yields P R (x >>= f) := by
  cases x with
  | ok a => exact hf a hx
  | error e => exact hx

/-- Of fewer nodes less is asked. -/
theorem Node.Over.mono {P : StructName → Prop} {nodes nodes' : List Node} (h : Node.Over P nodes') (hsub : nodes ⊆ nodes') :
    Node.Over P nodes :=
  fun n hn => h n (hsub hn)

namespace ProvenanceAux

variable {P : StructName → Prop}

/-- A fault without types may always be yielded. -/
theorem over_of_types_eq_nil {e : TypeError} (h : e.types = []) : e.Over P := by
  intro T hT
  rw [h] at hT
  cases hT

/-- A fault with one type may be yielded if the type may. -/
theorem over_of_types_eq_singleton {e : TypeError} {T : Ty} (h : e.types = [T]) (hT : T.Over P) : e.Over P := by
  intro U hU
  rw [h, List.mem_singleton] at hU
  rw [hU]
  exact hT

/-! ## Lookups and comparisons -/

variable {g : Globals} {Γ : Scope}

/-- Types that are compared are what the fault speaks about. -/
theorem yields_expect {expected found : Ty} (he : expected.Over P) (hf : found.Over P) :
    Yields P (fun _ => True) (Ty.expect expected found) := by
  unfold Ty.expect
  split
  · trivial
  · intro T hT
    rcases List.mem_cons.1 hT with rfl | hT
    · exact he
    · rw [List.mem_singleton.1 hT]
      exact hf

theorem yields_checkArity (callee : Callee) (expected found : Nat) :
    Yields P (fun _ => True) (callee.checkArity expected found) := by
  unfold Callee.checkArity
  split
  · trivial
  · exact over_of_types_eq_nil rfl

/-- A variable has a type of the scope. -/
theorem yields_lookup (hΓ : Γ.Over P) (x : VarName) : Yields P (Ty.Over P) (Γ.lookup x) := by
  unfold Scope.lookup
  split
  · rename_i T hT
    exact hΓ x T hT
  · exact over_of_types_eq_nil rfl

/-- A structure that is found is declared, with fields of such types. -/
theorem yields_fields (hg : g.Over P) (s : StructName) :
    Yields P (fun fields => P s ∧ ∀ d ∈ fields, d.ty.Over P) (g.structs.fields s) := by
  unfold StructTable.fields
  split
  · rename_i fields hfields
    exact hg.structs s fields hfields
  · exact over_of_types_eq_nil rfl

/-- A function that is found takes and returns such types. -/
theorem yields_signature (hg : g.Over P) (f : FunName) :
    Yields P (fun signature => signature.returnType.Over P ∧ ∀ T ∈ signature.params, T.Over P)
      (g.funs.signature f) := by
  unfold FunTable.signature
  split
  · rename_i signature hsignature
    exact hg.funs f signature hsignature
  · exact over_of_types_eq_nil rfl

/-- What a pointer points at is named like the pointer. -/
theorem yields_pointee {T : Ty} (hT : T.Over P) : Yields P (Ty.Over P) T.pointee := by
  unfold Ty.pointee
  split
  · exact hT
  · exact over_of_types_eq_singleton rfl hT

/-- A field has a type of the tables. -/
theorem yields_fieldOf (hg : g.Over P) {object : Ty} (ho : object.Over P) (f : FieldName) :
    Yields P (Ty.Over P) (g.fieldOf object f) := by
  unfold Globals.fieldOf
  split
  · refine (yields_fields hg _).bind fun decls hdecls => ?_
    split
    · rename_i d hd
      exact hdecls.2 d (List.mem_of_find?_eq_some hd)
    · exact over_of_types_eq_nil rfl
  · exact over_of_types_eq_singleton rfl ho

/-- The built-in types name no structure. -/
theorem over_of_names_eq_nil {T : Ty} (h : T.names = []) : T.Over P := by
  intro name hname
  rw [h] at hname
  cases hname

/-- An operator gives a built-in type or that of its first operand. -/
theorem yields_binaryOp_typeOf (op : BinaryOp) {left right : Ty} (hl : left.Over P) (hr : right.Over P) :
    Yields P (Ty.Over P) (op.typeOf left right) := by
  have hint : Ty.int.Over P := over_of_names_eq_nil rfl
  have hbool : Ty.bool.Over P := over_of_names_eq_nil rfl
  cases op with
  | add =>
    cases left with
    | int | pointer => exact (yields_expect hint hr).bind fun _ _ => hl
    | void | char | bool | struct => exact over_of_types_eq_singleton rfl hl
  | sub | mul | div => exact (yields_expect hint hl).bind fun _ _ => (yields_expect hint hr).bind fun _ _ => hint
  | equal => exact (yields_expect hl hr).bind fun _ _ => hbool
  | less => exact (yields_expect hint hl).bind fun _ _ => (yields_expect hint hr).bind fun _ _ => hbool

/-! ## Places and expressions -/

/-- The type of a place is made of what is declared, and so is its fault. -/
theorem yields_place_typeOf (hg : g.Over P) (hΓ : Γ.Over P) (l : Place) : Yields P (Ty.Over P) (l.typeOf g Γ) := by
  induction l with
  | var x => exact yields_lookup hΓ x
  | field base f ih => exact ih.bind fun T hT => yields_fieldOf hg hT f
  | deref pointer ih => exact ih.bind fun T hT => yields_pointee hT

/-- The nodes of a part of an expression are nodes of it. -/
theorem nodes_subset_of_mem_parts {e part : Expr} (h : part ∈ e.parts) : part.nodes ⊆ e.nodes := by
  have harguments : ∀ {arguments : List Expr}, part ∈ arguments → part.nodes ⊆ Expr.listNodes arguments := by
    intro arguments hpart n hn
    exact Expr.mem_listNodes_of_mem hpart hn
  rw [Expr.nodes.eq_def e]
  refine List.Subset.trans ?_ (List.subset_append_left _ _)
  cases e with
  | int | char | bool | var | sizeof | addressOf => cases h
  | malloc | free | cast | deref | field =>
    rw [List.mem_singleton.1 h]
    exact List.Subset.refl _
  | binary op left right =>
    rcases List.mem_cons.1 h with rfl | h
    · exact List.subset_append_left _ _
    · rw [List.mem_singleton.1 h]
      exact List.subset_append_right _ _
  | construct name arguments | call name arguments => exact harguments h

/-- Arguments of such types are compared with such types. -/
theorem yields_checkArguments {types : List Ty} (ht : ∀ T ∈ types, T.Over P) {arguments : List Expr}
    (ha : ∀ a ∈ arguments, Yields P (Ty.Over P) (a.typeOf g Γ).result) :
    Yields P (fun _ => True) (Expr.checkArguments g Γ types arguments).result := by
  induction arguments generalizing types with
  | nil =>
    rw [Expr.result_checkArguments_nil]
    trivial
  | cons a arguments ih =>
    cases types with
    | nil => trivial
    | cons expected types =>
      rw [List.forall_mem_cons] at ht ha
      rw [Expr.result_checkArguments_cons]
      exact ha.1.bind fun T hT => (yields_expect ht.1 hT).bind fun _ _ => ih ht.2 ha.2

/-- The type of an expression is made of what is written in it and of what is declared, and so is its fault. -/
theorem yields_typeOf (hg : g.Over P) (hΓ : Γ.Over P) (e : Expr) (he : Node.Over P e.nodes) :
    Yields P (Ty.Over P) (e.typeOf g Γ).result := by
  induction e using Expr.induction_on_parts with
  | step e ih =>
    have hparts : ∀ part ∈ e.parts, Yields P (Ty.Over P) (part.typeOf g Γ).result := by
      intro part hpart
      exact ih part hpart (he.mono (nodes_subset_of_mem_parts hpart))
    cases e with
    | int value =>
      rw [Expr.result_typeOf_int]
      exact over_of_names_eq_nil rfl
    | char value =>
      rw [Expr.result_typeOf_char]
      exact over_of_names_eq_nil rfl
    | bool value =>
      rw [Expr.result_typeOf_bool]
      exact over_of_names_eq_nil rfl
    | sizeof ty =>
      rw [Expr.result_typeOf_sizeof]
      exact over_of_names_eq_nil rfl
    | var x =>
      rw [Expr.result_typeOf_var]
      exact yields_lookup hΓ x
    | malloc size =>
      rw [Expr.result_typeOf_malloc]
      refine (hparts size List.mem_cons_self).bind fun T hT => ?_
      exact (yields_expect (over_of_names_eq_nil rfl) hT).bind fun _ _ => over_of_names_eq_nil rfl
    | free pointer =>
      rw [Expr.result_typeOf_free]
      refine (hparts pointer List.mem_cons_self).bind fun T hT => ?_
      exact (yields_expect (over_of_names_eq_nil rfl) hT).bind fun _ _ => over_of_names_eq_nil rfl
    | binary op left right =>
      rw [Expr.result_typeOf_binary]
      refine (hparts left List.mem_cons_self).bind fun T hT => ?_
      exact (hparts right (List.mem_cons_of_mem _ List.mem_cons_self)).bind fun U hU => yields_binaryOp_typeOf op hT hU
    | construct name arguments =>
      -- the name need not be written in a type: a structure is made only if it is declared
      rw [Expr.result_typeOf_construct]
      refine (yields_fields hg name).bind fun decls hdecls => (yields_checkArity _ _ _).bind fun _ _ => ?_
      have htypes : ∀ T ∈ decls.map Decl.ty, T.Over P := List.forall_mem_map.2 hdecls.2
      exact (yields_checkArguments htypes hparts).bind fun _ _ => List.forall_mem_singleton.2 hdecls.1
    | call name arguments =>
      rw [Expr.result_typeOf_call]
      refine (yields_signature hg name).bind fun sig hsig => (yields_checkArity _ _ _).bind fun _ _ => ?_
      exact (yields_checkArguments hsig.2 hparts).bind fun _ _ => hsig.1
    | cast target operand =>
      rw [Expr.result_typeOf_cast]
      exact (hparts operand List.mem_cons_self).bind fun _ _ => he _ (Expr.mem_nodes_self _) target rfl
    | addressOf l =>
      rw [Expr.result_typeOf_addressOf]
      exact (yields_place_typeOf hg hΓ l).bind fun T hT => hT
    | deref pointer =>
      rw [Expr.result_typeOf_deref]
      exact (hparts pointer List.mem_cons_self).bind fun T hT => yields_pointee hT
    | field object f =>
      rw [Expr.result_typeOf_field]
      exact (hparts object List.mem_cons_self).bind fun T hT => yields_fieldOf hg hT f

/-! ## Statements -/

/-- A scope with one more variable of such a type is of such types. -/
theorem over_insert (hΓ : Γ.Over P) {x : VarName} {T : Ty} (hT : T.Over P) : Scope.Over P (Γ.insert x T) := by
  intro y U hU
  rw [Std.ExtTreeMap.getElem?_insert] at hU
  split at hU
  · cases hU
    exact hT
  · exact hΓ y U hU

theorem yields_checkFreed (hg : g.Over P) (hΓ : Γ.Over P) {pointer : Expr} (hp : Node.Over P pointer.nodes) :
    Yields P (fun _ => True) (pointer.checkFreed g Γ).result := by
  rw [Expr.result_checkFreed]
  exact (yields_typeOf hg hΓ pointer hp).bind fun T hT => yields_expect (over_of_names_eq_nil rfl) hT

/-- A condition is compared with a built-in type, and so is what is released. -/
theorem yields_checkCondition (hg : g.Over P) (hΓ : Γ.Over P) {condition : Expr} (hc : Node.Over P condition.nodes) :
    Yields P (fun _ => True) (condition.checkCondition g Γ).result := by
  rw [Expr.result_checkCondition]
  exact (yields_typeOf hg hΓ condition hc).bind fun T hT => yields_expect (over_of_names_eq_nil rfl) hT

/-- A statement leaves a scope of types that are written in it or were there before, and its fault speaks about such types. -/
theorem yields_check (hg : g.Over P) {returnType : Ty} (hr : returnType.Over P) (s : Stmt) {inLoop : Bool} (hΓ : Γ.Over P)
    (hs : Node.Over P s.nodes) :
    Yields P (fun o => o.scope.Over P) (s.check g returnType inLoop Γ).result := by
  induction s generalizing inLoop Γ with
  | expr value =>
    rw [Stmt.result_check_expr]
    have hvalue : Node.Over P value.nodes := hs.mono (List.subset_append_left _ _)
    exact (yields_typeOf hg hΓ value hvalue).bind fun _ _ => hΓ
  | declare decl init =>
    rw [Stmt.result_check_declare]
    have hinit : Node.Over P init.nodes := hs.mono (List.subset_append_left _ _)
    have hdecl : decl.ty.Over P := hs _ (Stmt.mem_nodes_self _) decl.ty rfl
    split
    · exact over_of_types_eq_nil rfl
    · exact (yields_typeOf hg hΓ init hinit).bind fun T hT => (yields_expect hdecl hT).bind fun _ _ => over_insert hΓ hdecl
  | assign target value =>
    rw [Stmt.result_check_assign]
    have hvalue : Node.Over P value.nodes :=
      hs.mono (List.Subset.trans (List.subset_append_right _ _) (List.subset_append_left _ _))
    refine (yields_place_typeOf hg hΓ target).bind fun T hT => (yields_typeOf hg hΓ value hvalue).bind fun U hU => ?_
    exact (yields_expect hT hU).bind fun _ _ => hΓ
  | ifElse condition thenBranch elseBranch ihThen ihElse =>
    rw [Stmt.result_check_ifElse]
    have hparts : Node.Over P (condition.nodes ++ (thenBranch.nodes ++ elseBranch.nodes)) :=
      hs.mono (List.subset_append_left _ _)
    have hbranches : Node.Over P (thenBranch.nodes ++ elseBranch.nodes) := hparts.mono (List.subset_append_right _ _)
    refine (yields_checkCondition hg hΓ (hparts.mono (List.subset_append_left _ _))).bind fun _ _ => ?_
    refine (ihThen hΓ (hbranches.mono (List.subset_append_left _ _))).bind fun _ _ => ?_
    exact (ihElse hΓ (hbranches.mono (List.subset_append_right _ _))).bind fun _ _ => hΓ
  | whileDo condition body ih =>
    rw [Stmt.result_check_whileDo]
    have hparts : Node.Over P (condition.nodes ++ body.nodes) := hs.mono (List.subset_append_left _ _)
    refine (yields_checkCondition hg hΓ (hparts.mono (List.subset_append_left _ _))).bind fun _ _ => ?_
    exact (ih hΓ (hparts.mono (List.subset_append_right _ _))).bind fun _ _ => hΓ
  | breakLoop =>
    rw [Stmt.result_check_breakLoop]
    split
    · exact hΓ
    · exact over_of_types_eq_nil rfl
  | continueLoop =>
    rw [Stmt.result_check_continueLoop]
    split
    · exact hΓ
    · exact over_of_types_eq_nil rfl
  | returnVoid =>
    rw [Stmt.result_check_returnVoid]
    exact (yields_expect hr (over_of_names_eq_nil rfl)).bind fun _ _ => hΓ
  | returnValue value =>
    rw [Stmt.result_check_returnValue]
    have hvalue : Node.Over P value.nodes := hs.mono (List.subset_append_left _ _)
    exact (yields_typeOf hg hΓ value hvalue).bind fun T hT => (yields_expect hr hT).bind fun _ _ => hΓ
  | free pointer =>
    rw [Stmt.result_check_free]
    have hpointer : Node.Over P pointer.nodes := hs.mono (List.subset_append_left _ _)
    exact (yields_checkFreed hg hΓ hpointer).bind fun _ _ => hΓ
  | seq first second ihFirst ihSecond =>
    rw [Stmt.result_check_seq]
    have hparts : Node.Over P (first.nodes ++ second.nodes) := hs.mono (List.subset_append_left _ _)
    refine (ihFirst hΓ (hparts.mono (List.subset_append_left _ _))).bind fun o ho => ?_
    split
    · exact over_of_types_eq_nil rfl
    · exact ihSecond ho (hparts.mono (List.subset_append_right _ _))

/-! ## Programs -/

/-- The scope of parameters of such types is of such types. -/
theorem over_ofParams {params : List (Decl .var)} (h : ∀ d ∈ params, d.ty.Over P) : (Scope.ofParams params).Over P := by
  have hempty : Scope.Over P ∅ := by
    intro x T hT
    rw [Std.ExtTreeMap.getElem?_empty] at hT
    cases hT
  have hfold : ∀ Γ : Scope, Γ.Over P → (params.foldl Scope.extend Γ).Over P := by
    induction params with
    | nil => exact fun Γ hΓ => hΓ
    | cons d params ih =>
      intro Γ hΓ
      rw [List.forall_mem_cons] at h
      exact ih h.2 (Γ.extend d) (over_insert hΓ h.1)
  exact hfold ∅ hempty

/-- The fault of a function speaks about types that are written in it or declared. -/
theorem yields_funDef_check (hg : g.Over P) {f : FunDef} (hf : ∀ T ∈ f.types, T.Over P) :
    Yields P (fun _ => True) (f.check g).result := by
  have hreturn : f.returnType.Over P := hf _ List.mem_cons_self
  have hparams : ∀ d ∈ f.params, d.ty.Over P := by
    intro d hd
    exact hf _ (List.mem_cons_of_mem _ (List.mem_append_left _ (List.mem_map_of_mem hd)))
  have hbody : Node.Over P f.body.nodes := by
    intro n hn T hT
    exact hf T (List.mem_cons_of_mem _ (List.mem_append_right _ (List.mem_filterMap.2 ⟨n, hn, hT⟩)))
  rw [FunDef.result_check]
  refine (yields_check hg hreturn f.body (over_ofParams hparams) hbody).bind fun o _ => ?_
  split
  · exact over_of_types_eq_singleton rfl hreturn
  · trivial

variable {p : Program} {e : TypeError}

/-- The faults of the tables speak about no types. -/
theorem types_eq_nil_of_globals (h : p.globals.result = .error e) : e.types = [] := by
  simp only [Program.globals, Check.result_bind, Check.bind_eq_error_iff, Check.result_emit, Check.result_pure] at h
  rcases h with hs | ⟨_, -, hf | ⟨_, -, hc | ⟨_, -, hc⟩⟩⟩
  · obtain ⟨s, -, ⟨rfl, -⟩ | hfields⟩ := BlameAux.duplicate_or_invalid_of_build StructTable.enters hs
    · rfl
    · obtain ⟨field, ⟨rfl, -⟩ | ⟨rfl, -⟩⟩ := BlameAux.void_or_duplicate_of_validate hfields
      · rfl
      · rfl
  · obtain ⟨f, -, ⟨rfl, -⟩ | hparams⟩ := BlameAux.duplicate_or_invalid_of_build FunTable.enters hf
    · rfl
    · obtain ⟨x, ⟨rfl, -⟩ | ⟨rfl, -⟩⟩ := BlameAux.void_or_duplicate_of_validate hparams
      · rfl
      · rfl
  · cases hc
  · cases hc

/-- The types of a program are made of the structures that are named in it. -/
theorem over_of_mem_types {T : Ty} (hT : T ∈ p.types) : T.Over (· ∈ p.structNames) := by
  intro name hname
  exact List.mem_append_right _ (List.mem_flatMap.2 ⟨T, hT, hname⟩)

theorem over_of_mem_funTypes {f : FunDef} (hf : f ∈ p.funs) {T : Ty} (hT : T ∈ f.types) : T.Over (· ∈ p.structNames) :=
  over_of_mem_types (List.mem_append_right _ (List.mem_flatMap.2 ⟨f, hf, hT⟩))

/-- What the tables of a program hold is written in the program. -/
theorem globals_over (hg : g.Describes p) : g.Over (· ∈ p.structNames) := by
  constructor
  · intro s fields hs
    have hdecl : ⟨s, fields⟩ ∈ p.structs := (hg.structs s fields).1 hs
    refine ⟨List.mem_append_left _ (List.mem_map_of_mem hdecl), fun d hd => over_of_mem_types ?_⟩
    exact List.mem_append_left _ (List.mem_flatMap.2 ⟨_, hdecl, List.mem_map_of_mem hd⟩)
  · intro name signature hsignature
    obtain ⟨f, hf, -, rfl⟩ := (hg.funs name signature).1 hsignature
    refine ⟨over_of_mem_funTypes hf List.mem_cons_self, List.forall_mem_map.2 fun d hd => ?_⟩
    have htype : d.ty ∈ f.types := List.mem_cons_of_mem _ (List.mem_append_left _ (List.mem_map_of_mem hd))
    exact over_of_mem_funTypes hf htype

end ProvenanceAux

open ProvenanceAux

/-- The fault of a program is one of its tables, or one of a function against its tables. -/
theorem Program.globals_or_body_of_check {p : Program} {e : TypeError} (h : p.check.result = .error e) :
    p.globals.result = .error e ∨
      ∃ g, g.Describes p ∧ ∃ f ∈ p.funs, (f.check g).result = .error e := by
  simp only [Program.check, Program.checkBodies, Check.result_bind, Check.bind_eq_error_iff, Check.result_pure] at h
  rcases h with hg | ⟨g, hg, hb | ⟨_, -, hc⟩⟩
  · exact Or.inl hg
  · obtain ⟨before, f, behind, hsplit, -, hf⟩ := Check.exists_of_forM_eq_error hb
    have hmem : f ∈ p.funs := by
      rw [hsplit]
      exact List.mem_append_right _ List.mem_cons_self
    exact Or.inr ⟨g, WellTypedAux.describes_of_globals hg, f, hmem, hf⟩
  · cases hc

/-- The types in the fault of a program are made of structures that are named in it. -/
theorem Program.names_of_fault {p : Program} {e : TypeError} (h : p.check.result = .error e) {T : Ty} (hT : T ∈ e.types)
    {name : StructName} (hname : name ∈ T.names) : name ∈ p.structNames := by
  rcases p.globals_or_body_of_check h with hg | ⟨g, hg, f, hf, hcheck⟩
  · rw [types_eq_nil_of_globals hg] at hT
    cases hT
  · have hyields := yields_funDef_check (globals_over hg) fun T => over_of_mem_funTypes hf
    rw [hcheck] at hyields
    exact hyields T hT name hname

/-- A mismatch that a program is given is one of two different types. -/
theorem Program.ne_of_typeMismatch {p : Program} {expected found : Ty}
    (h : p.check.result = .error (.typeMismatch expected found)) : expected ≠ found := by
  rcases p.globals_or_body_of_check h with hg | ⟨g, hg, f, hf, hcheck⟩
  · exact BlameAux.trueOf_of_globals hg
  · exact BlameAux.trueOf_of_check hg hf hcheck

end CoreC
