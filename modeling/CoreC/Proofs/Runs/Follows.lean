import CoreC.Proofs.Runs.Renaming
import CoreC.Proofs.Typing.Scopes

/-!
# Two runs of the checker

The checker is run twice: on a text in one environment, and on the renamed text in another one. The second run follows the
first (`Follows`) if it succeeds where the first does, with a value that stands in a given relation to the first one's, and
fails where the first does, with the renamed fault. Some faults of the first run may be excused: what the second run then
does is left open.

The checker asks its environment for three things only, the fields of a structure, the signature of a function and the type
of a variable. If the second environment follows the first one in these (`Globals.Follows`, `Scope.Follows`), the second run
follows the first one on every expression, place, statement and function. Of the variables only those that the text
mentions are asked for; the scopes may differ on all others.

Each use of this fixes a renaming, the faults that are excused and the variables in question: an environment that has more
in it excuses the faults about what is missing and renames nothing; a renamed program excuses nothing.
-/

namespace CoreC

variable {α β γ δ : Type}

/-- The second value is the image of the first one. -/
def IsImage (φ : α → β) (a : α) (b : β) : Prop :=
  b = φ a

/-- The second result follows the first one. -/
def Follows (ρ : Renaming) (excused : TypeError → Prop) (R : α → β → Prop) (x : Except TypeError α)
    (y : Except TypeError β) : Prop :=
  match x with
  | .ok a => ∃ b, y = .ok b ∧ R a b
  | .error e => excused e ∨ y = .error (e.rename ρ)

/-- No fault is excused. -/
abbrev NoFault (_ : TypeError) : Prop := False

namespace Follows

variable {ρ : Renaming} {excused : TypeError → Prop} {R : α → β → Prop} {S : γ → δ → Prop}

/-- A value follows one that it is related to. -/
theorem ok {a : α} {b : β} (h : R a b) : Follows ρ excused R (.ok a) (.ok b) :=
  ⟨b, rfl, h⟩

/-- The renamed fault follows the fault. -/
theorem error (e : TypeError) : Follows ρ excused R (.error e) (.error (e.rename ρ)) :=
  Or.inr rfl

/-- Anything follows a fault that is excused. -/
theorem of_excused {e : TypeError} (h : excused e) (y : Except TypeError β) : Follows ρ excused R (.error e) y :=
  Or.inl h

/-- A chain follows a chain link by link. -/
theorem bind {x : Except TypeError α} {y : Except TypeError β} {f : α → Except TypeError γ}
    {k : β → Except TypeError δ} (hx : Follows ρ excused R x y) (hf : ∀ a b, R a b → Follows ρ excused S (f a) (k b)) :
    Follows ρ excused S (x >>= f) (y >>= k) := by
  cases x with
  | ok a =>
    obtain ⟨b, rfl, hab⟩ := hx
    exact hf a b hab
  | error e =>
    rcases hx with he | rfl
    · exact of_excused he _
    · exact error e

/-- A chain follows a chain whose first link gives the image of a value. -/
theorem bind_image {φ : α → β} {x : Except TypeError α} {y : Except TypeError β} {f : α → Except TypeError γ}
    {k : β → Except TypeError δ} (hx : Follows ρ excused (IsImage φ) x y)
    (hf : ∀ a, Follows ρ excused S (f a) (k (φ a))) : Follows ρ excused S (x >>= f) (y >>= k) := by
  refine hx.bind fun a b hab => ?_
  rw [hab]
  exact hf a

/-- A result follows itself where nothing is renamed. -/
theorem refl_keep {φ : α → α} (hφ : ∀ a, φ a = a) (x : Except TypeError α) : Follows .keep excused (IsImage φ) x x := by
  cases x with
  | ok a => exact ok (hφ a).symm
  | error e =>
    refine Or.inr ?_
    rw [TypeError.rename_keep]

/-- What follows a result with nothing renamed is that result, unless its fault is excused. -/
theorem eq_of_keep {φ : α → α} (hφ : ∀ a, φ a = a) {x y : Except TypeError α}
    (h : Follows .keep excused (IsImage φ) x y) (hx : ∀ e, x = .error e → ¬excused e) : y = x := by
  cases x with
  | ok a =>
    obtain ⟨_, rfl, rfl⟩ := h
    rw [hφ]
  | error e =>
    rcases h with he | rfl
    · exact absurd he (hx e rfl)
    · rw [TypeError.rename_keep]

end Follows

/-! ## Environments -/

/-- The second tables answer like the first ones. -/
structure Globals.Follows (ρ : Renaming) (excused : TypeError → Prop) (g g' : Globals) : Prop where
  fields : ∀ s, CoreC.Follows ρ excused (IsImage (List.map (Decl.rename ρ))) (g.structs.fields s)
    (g'.structs.fields (s.rename ρ))
  signature : ∀ f, CoreC.Follows ρ excused (IsImage (Signature.rename ρ)) (g.funs.signature f)
    (g'.funs.signature (f.rename ρ))

/-- The second scope answers like the first one for some of the variables. -/
def Scope.Follows (ρ : Renaming) (excused : TypeError → Prop) (V : VarName → Prop) (Γ Γ' : Scope) : Prop :=
  ∀ x, V x → CoreC.Follows ρ excused (IsImage (Ty.rename ρ)) (Γ.lookup x) (Γ'.lookup (x.rename ρ))

/-- Scopes that follow each other do so with the same declaration added to both. -/
theorem Scope.Follows.extend {ρ : Renaming} {excused : TypeError → Prop} {V : VarName → Prop} {Γ Γ' : Scope}
    (h : Scope.Follows ρ excused V Γ Γ') (decl : Decl .var) :
    Scope.Follows ρ excused V (Γ.extend decl) (Γ'.extend (decl.rename ρ)) := by
  intro x hx
  have hname : (decl.rename ρ).name = x.rename ρ ↔ decl.name = x := Name.rename_inj
  rw [Scope.lookup_extend, Scope.lookup_extend]
  by_cases hd : decl.name = x
  · rw [if_pos hd, if_pos (hname.2 hd)]
    exact .ok rfl
  · rw [if_neg hd, if_neg fun hd' => hd (hname.1 hd')]
    exact h x hx

/-- Scopes that follow each other do so with the same declarations added to both, in order. -/
theorem Scope.Follows.extendAll {ρ : Renaming} {excused : TypeError → Prop} {V : VarName → Prop} {Γ Γ' : Scope}
    (h : Scope.Follows ρ excused V Γ Γ') (decls : List (Decl .var)) :
    Scope.Follows ρ excused V (Γ.extendAll decls) (Γ'.extendAll (decls.map (Decl.rename ρ))) := by
  induction decls generalizing Γ Γ' with
  | nil => exact h
  | cons decl decls ih => exact ih (h.extend decl)

/-- The scopes of the parameters of a function follow each other. -/
theorem Scope.Follows.ofParams (ρ : Renaming) (excused : TypeError → Prop) (V : VarName → Prop)
    (params : List (Decl .var)) :
    Scope.Follows ρ excused V (Scope.ofParams params) (Scope.ofParams (params.map (Decl.rename ρ))) := by
  have hempty : Scope.Follows ρ excused V ∅ ∅ := by
    intro x _
    simp only [Scope.lookup, Std.ExtTreeMap.getElem?_empty]
    exact .error (.unboundVariable x)
  exact hempty.extendAll params

/-! ## Comparisons and lookups -/

namespace Runs

variable {ρ : Renaming} {excused : TypeError → Prop} {g g' : Globals} {Γ Γ' : Scope}

/-- What is asked of a check that has no value: nothing. -/
abbrev Passes (_ _ : Unit) : Prop := True

/-- Renamed types are equal where the types were. -/
theorem expect_follows (expected found : Ty) :
    Follows ρ excused Passes (Ty.expect expected found) (Ty.expect (expected.rename ρ) (found.rename ρ)) := by
  unfold Ty.expect
  by_cases h : expected = found
  · rw [if_pos h, if_pos (by rw [h])]
    exact .ok trivial
  · rw [if_neg h, if_neg fun he => h (Ty.rename_inj.1 he)]
    exact .error (.typeMismatch expected found)

/-- Arguments are counted alike. -/
theorem checkArity_follows (callee : Callee) (expected found : Nat) :
    Follows ρ excused Passes (callee.checkArity expected found) ((callee.rename ρ).checkArity expected found) := by
  unfold Callee.checkArity
  by_cases h : expected = found
  · rw [if_pos h, if_pos h]
    exact .ok trivial
  · rw [if_neg h, if_neg h]
    exact .error (.arityMismatch callee expected found)

/-- A renamed pointer points at the renamed type. -/
theorem pointee_follows (T : Ty) : Follows ρ excused (IsImage (Ty.rename ρ)) T.pointee (T.rename ρ).pointee := by
  cases T with
  | pointer target => exact .ok rfl
  | _ => exact .error (.notAPointer _)

/-- A field is found among renamed fields where it was found before. -/
theorem find?_rename (fields : List (Decl .field)) (f : FieldName) :
    (fields.map (Decl.rename ρ)).find? (·.name = f.rename ρ) = (fields.find? (·.name = f)).map (Decl.rename ρ) := by
  rw [List.find?_map]
  congr 1
  refine congrArg (fields.find? ·) (funext fun decl => ?_)
  simp [Decl.rename, Name.rename_inj]

/-- A field has the renamed type in the other tables. -/
theorem fieldOf_follows (hg : g.Follows ρ excused g') (object : Ty) (f : FieldName) :
    Follows ρ excused (IsImage (Ty.rename ρ)) (g.fieldOf object f) (g'.fieldOf (object.rename ρ) (f.rename ρ)) := by
  cases object with
  | struct s =>
    refine (hg.fields s).bind_image fun fields => ?_
    rw [find?_rename]
    cases fields.find? (·.name = f) with
    | some decl => exact .ok rfl
    | none => exact .error (.unknownField s f)
  | _ => exact .error (.notAStruct _)

/-- An operator gives the renamed type for renamed operands: it knows only built-in types by name. -/
theorem binaryOp_typeOf_follows (op : BinaryOp) (left right : Ty) :
    Follows ρ excused (IsImage (Ty.rename ρ)) (op.typeOf left right) (op.typeOf (left.rename ρ) (right.rename ρ)) := by
  cases op with
  | add =>
    cases left with
    | int | pointer => exact (expect_follows .int right).bind fun _ _ _ => .ok rfl
    | _ => exact .error (.invalidOperand .add _)
  | equal => exact (expect_follows left right).bind fun _ _ _ => .ok rfl
  | sub | mul | div | less => exact (expect_follows .int left).bind fun _ _ _ => (expect_follows .int right).bind fun _ _ _ => .ok rfl

/-! ## Places and expressions -/

variable {V : VarName → Prop} {nodes : List Node}

/-- The type of a place is found again, renamed, and so is its fault. -/
theorem place_typeOf_follows (hg : g.Follows ρ excused g') (hΓ : Scope.Follows ρ excused V Γ Γ')
    (hV : ∀ x, Node.Mentions nodes x → V x) (l : Place) (hl : l.nodes ⊆ nodes) :
    Follows ρ excused (IsImage (Ty.rename ρ)) (l.typeOf g Γ) ((l.rename ρ).typeOf g' Γ') := by
  induction l with
  | var x => exact hΓ x (hV x (Or.inr (hl (Place.mem_nodes_self _))))
  | field base f ih =>
    have hbase : base.nodes ⊆ nodes := (List.append_subset.1 hl).1
    refine (ih hbase).bind_image fun T => ?_
    exact fieldOf_follows hg T f
  | deref pointer ih =>
    have hpointer : pointer.nodes ⊆ nodes := (List.append_subset.1 hl).1
    refine (ih hpointer).bind_image fun T => ?_
    exact pointee_follows T

mutual

/-- The type of an expression is found again, renamed, and so is its fault. -/
theorem typeOf_follows (hg : g.Follows ρ excused g') (hΓ : Scope.Follows ρ excused V Γ Γ')
    (hV : ∀ x, Node.Mentions nodes x → V x) :
    ∀ e : Expr, e.nodes ⊆ nodes →
      Follows ρ excused (IsImage (Ty.rename ρ)) (e.typeOf g Γ).result ((e.rename ρ).typeOf g' Γ').result
  | .int value, _ => by
    rw [Expr.rename, Expr.result_typeOf_int, Expr.result_typeOf_int]
    exact .ok rfl
  | .char value, _ => by
    rw [Expr.rename, Expr.result_typeOf_char, Expr.result_typeOf_char]
    exact .ok rfl
  | .bool value, _ => by
    rw [Expr.rename, Expr.result_typeOf_bool, Expr.result_typeOf_bool]
    exact .ok rfl
  | .var x, he => by
    rw [Expr.rename, Expr.result_typeOf_var, Expr.result_typeOf_var]
    exact hΓ x (hV x (Or.inl (he (Expr.mem_nodes_self _))))
  | .malloc size, he => by
    rw [Expr.rename, Expr.result_typeOf_malloc, Expr.result_typeOf_malloc]
    have hsize : size.nodes ⊆ nodes := (List.append_subset.1 he).1
    refine (typeOf_follows hg hΓ hV size hsize).bind_image fun T => ?_
    exact (expect_follows .int T).bind fun _ _ _ => .ok rfl
  | .free pointer, he => by
    rw [Expr.rename, Expr.result_typeOf_free, Expr.result_typeOf_free]
    have hpointer : pointer.nodes ⊆ nodes := (List.append_subset.1 he).1
    refine (typeOf_follows hg hΓ hV pointer hpointer).bind_image fun T => ?_
    exact (expect_follows .voidPointer T).bind fun _ _ _ => .ok rfl
  | .sizeof ty, _ => by
    rw [Expr.rename, Expr.result_typeOf_sizeof, Expr.result_typeOf_sizeof]
    exact .ok rfl
  | .binary op left right, he => by
    rw [Expr.rename, Expr.result_typeOf_binary, Expr.result_typeOf_binary]
    obtain ⟨hleft, hright⟩ := List.append_subset.1 (List.append_subset.1 he).1
    refine (typeOf_follows hg hΓ hV left hleft).bind_image fun L => ?_
    refine (typeOf_follows hg hΓ hV right hright).bind_image fun R => ?_
    exact binaryOp_typeOf_follows op L R
  | .construct name arguments, he => by
    rw [Expr.rename, Expr.result_typeOf_construct, Expr.result_typeOf_construct]
    have harguments : Expr.listNodes arguments ⊆ nodes := (List.append_subset.1 he).1
    refine (hg.fields name).bind_image fun fields => ?_
    have htypes : (fields.map (Decl.rename ρ)).map Decl.ty = (fields.map Decl.ty).map (Ty.rename ρ) := by
      rw [List.map_map, List.map_map]
      rfl
    rw [htypes, List.length_map, Expr.length_listRename]
    refine (checkArity_follows (.struct name) fields.length arguments.length).bind fun _ _ _ => ?_
    exact (checkArguments_follows hg hΓ hV (fields.map Decl.ty) arguments harguments).bind fun _ _ _ => .ok rfl
  | .call name arguments, he => by
    rw [Expr.rename, Expr.result_typeOf_call, Expr.result_typeOf_call]
    have harguments : Expr.listNodes arguments ⊆ nodes := (List.append_subset.1 he).1
    refine (hg.signature name).bind_image fun signature => ?_
    rw [Signature.rename, List.length_map, Expr.length_listRename]
    refine (checkArity_follows (.func name) signature.params.length arguments.length).bind fun _ _ _ => ?_
    exact (checkArguments_follows hg hΓ hV signature.params arguments harguments).bind fun _ _ _ => .ok rfl
  | .cast target operand, he => by
    rw [Expr.rename, Expr.result_typeOf_cast, Expr.result_typeOf_cast]
    have hoperand : operand.nodes ⊆ nodes := (List.append_subset.1 he).1
    exact (typeOf_follows hg hΓ hV operand hoperand).bind fun _ _ _ => .ok rfl
  | .addressOf l, he => by
    rw [Expr.rename, Expr.result_typeOf_addressOf, Expr.result_typeOf_addressOf]
    have hl : l.nodes ⊆ nodes := (List.append_subset.1 he).1
    refine (place_typeOf_follows hg hΓ hV l hl).bind_image fun T => ?_
    exact .ok rfl
  | .deref pointer, he => by
    rw [Expr.rename, Expr.result_typeOf_deref, Expr.result_typeOf_deref]
    have hpointer : pointer.nodes ⊆ nodes := (List.append_subset.1 he).1
    refine (typeOf_follows hg hΓ hV pointer hpointer).bind_image fun T => ?_
    exact pointee_follows T
  | .field object f, he => by
    rw [Expr.rename, Expr.result_typeOf_field, Expr.result_typeOf_field]
    have hobject : object.nodes ⊆ nodes := (List.append_subset.1 he).1
    refine (typeOf_follows hg hΓ hV object hobject).bind_image fun T => ?_
    exact fieldOf_follows hg T f

/-- Arguments pass again, and the fault of the first one that does not is found again. -/
theorem checkArguments_follows (hg : g.Follows ρ excused g') (hΓ : Scope.Follows ρ excused V Γ Γ')
    (hV : ∀ x, Node.Mentions nodes x → V x) :
    ∀ (types : List Ty) (arguments : List Expr), Expr.listNodes arguments ⊆ nodes →
      Follows ρ excused Passes (Expr.checkArguments g Γ types arguments).result
        (Expr.checkArguments g' Γ' (types.map (Ty.rename ρ)) (Expr.listRename ρ arguments)).result
  | types, [], _ => by
    rw [Expr.listRename, Expr.result_checkArguments_nil, Expr.result_checkArguments_nil]
    exact .ok trivial
  | [], _ :: _, _ => .ok trivial
  | expected :: types, e :: arguments, h => by
    rw [Expr.listRename, List.map_cons, Expr.result_checkArguments_cons, Expr.result_checkArguments_cons]
    obtain ⟨he, harguments⟩ := List.append_subset.1 h
    refine (typeOf_follows hg hΓ hV e he).bind_image fun T => ?_
    exact (expect_follows expected T).bind fun _ _ _ => checkArguments_follows hg hΓ hV types arguments harguments

end

/-- A condition passes again, and so does what is released: they are compared with built-in types. -/
theorem checkCondition_follows (hg : g.Follows ρ excused g') (hΓ : Scope.Follows ρ excused V Γ Γ')
    (hV : ∀ x, Node.Mentions nodes x → V x) (condition : Expr) (hc : condition.nodes ⊆ nodes) :
    Follows ρ excused Passes (condition.checkCondition g Γ).result ((condition.rename ρ).checkCondition g' Γ').result := by
  rw [Expr.result_checkCondition, Expr.result_checkCondition]
  refine (typeOf_follows hg hΓ hV condition hc).bind_image fun T => ?_
  exact expect_follows .bool T

theorem checkFreed_follows (hg : g.Follows ρ excused g') (hΓ : Scope.Follows ρ excused V Γ Γ')
    (hV : ∀ x, Node.Mentions nodes x → V x) (pointer : Expr) (hp : pointer.nodes ⊆ nodes) :
    Follows ρ excused Passes (pointer.checkFreed g Γ).result ((pointer.rename ρ).checkFreed g' Γ').result := by
  rw [Expr.result_checkFreed, Expr.result_checkFreed]
  refine (typeOf_follows hg hΓ hV pointer hp).bind_image fun T => ?_
  exact expect_follows .voidPointer T

/-! ## Statements and functions -/

/-- The second outcome agrees on whether the statement returns, and its scope follows. -/
structure OutcomeFollows (ρ : Renaming) (excused : TypeError → Prop) (V : VarName → Prop) (o o' : Outcome) : Prop where
  returns : o'.returns = o.returns
  scope : Scope.Follows ρ excused V o.scope o'.scope

/-- The outcome of a statement is found again, and so is its fault. -/
theorem check_follows (hg : g.Follows ρ excused g') (hV : ∀ x, Node.Mentions nodes x → V x) (returnType : Ty) (s : Stmt)
    (hs : s.nodes ⊆ nodes) (inLoop : Bool) (hΓ : Scope.Follows ρ excused V Γ Γ') :
    Follows ρ excused (OutcomeFollows ρ excused V) (s.check g returnType inLoop Γ).result
      ((s.rename ρ).check g' (returnType.rename ρ) inLoop Γ').result := by
  induction s generalizing inLoop Γ Γ' with
  | expr value =>
    rw [Stmt.rename, Stmt.result_check_expr, Stmt.result_check_expr]
    have hvalue : value.nodes ⊆ nodes := (List.append_subset.1 hs).1
    exact (typeOf_follows hg hΓ hV value hvalue).bind fun _ _ _ => .ok ⟨rfl, hΓ⟩
  | declare decl init =>
    rw [Stmt.rename, Stmt.result_check_declare, Stmt.result_check_declare]
    have hinit : init.nodes ⊆ nodes := (List.append_subset.1 hs).1
    have hvoid : (decl.rename ρ).ty.isVoid = decl.ty.isVoid := Ty.isVoid_rename ρ decl.ty
    rw [hvoid]
    by_cases hv : decl.ty.isVoid = true
    · rw [if_pos hv, if_pos hv]
      exact .error (.voidVariable decl.name)
    · rw [if_neg hv, if_neg hv]
      refine (typeOf_follows hg hΓ hV init hinit).bind_image fun T => ?_
      exact (expect_follows decl.ty T).bind fun _ _ _ => .ok ⟨rfl, hΓ.extend decl⟩
  | assign target value =>
    rw [Stmt.rename, Stmt.result_check_assign, Stmt.result_check_assign]
    obtain ⟨htarget, hvalue⟩ := List.append_subset.1 (List.append_subset.1 hs).1
    refine (place_typeOf_follows hg hΓ hV target htarget).bind_image fun T => ?_
    refine (typeOf_follows hg hΓ hV value hvalue).bind_image fun U => ?_
    exact (expect_follows T U).bind fun _ _ _ => .ok ⟨rfl, hΓ⟩
  | ifElse condition thenBranch elseBranch ihThen ihElse =>
    rw [Stmt.rename, Stmt.result_check_ifElse, Stmt.result_check_ifElse]
    obtain ⟨hc, hbranches⟩ := List.append_subset.1 (List.append_subset.1 hs).1
    obtain ⟨hthen, helse⟩ := List.append_subset.1 hbranches
    refine (checkCondition_follows hg hΓ hV condition hc).bind fun _ _ _ => ?_
    refine (ihThen hthen inLoop hΓ).bind fun o₁ o₁' h₁ => ?_
    refine (ihElse helse inLoop hΓ).bind fun o₂ o₂' h₂ => ?_
    rw [h₁.returns, h₂.returns]
    exact .ok ⟨rfl, hΓ⟩
  | whileDo condition body ih =>
    rw [Stmt.rename, Stmt.result_check_whileDo, Stmt.result_check_whileDo]
    obtain ⟨hc, hbody⟩ := List.append_subset.1 (List.append_subset.1 hs).1
    refine (checkCondition_follows hg hΓ hV condition hc).bind fun _ _ _ => ?_
    exact (ih hbody true hΓ).bind fun _ _ _ => .ok ⟨rfl, hΓ⟩
  | breakLoop =>
    rw [Stmt.rename, Stmt.result_check_breakLoop, Stmt.result_check_breakLoop]
    by_cases hl : inLoop = true
    · rw [if_pos hl, if_pos hl]
      exact .ok ⟨rfl, hΓ⟩
    · rw [if_neg hl, if_neg hl]
      exact .error .breakOutsideLoop
  | continueLoop =>
    rw [Stmt.rename, Stmt.result_check_continueLoop, Stmt.result_check_continueLoop]
    by_cases hl : inLoop = true
    · rw [if_pos hl, if_pos hl]
      exact .ok ⟨rfl, hΓ⟩
    · rw [if_neg hl, if_neg hl]
      exact .error .continueOutsideLoop
  | returnVoid =>
    rw [Stmt.rename, Stmt.result_check_returnVoid, Stmt.result_check_returnVoid]
    exact (expect_follows returnType .void).bind fun _ _ _ => .ok ⟨rfl, hΓ⟩
  | returnValue value =>
    rw [Stmt.rename, Stmt.result_check_returnValue, Stmt.result_check_returnValue]
    have hvalue : value.nodes ⊆ nodes := (List.append_subset.1 hs).1
    refine (typeOf_follows hg hΓ hV value hvalue).bind_image fun T => ?_
    exact (expect_follows returnType T).bind fun _ _ _ => .ok ⟨rfl, hΓ⟩
  | free pointer =>
    rw [Stmt.rename, Stmt.result_check_free, Stmt.result_check_free]
    have hpointer : pointer.nodes ⊆ nodes := (List.append_subset.1 hs).1
    exact (checkFreed_follows hg hΓ hV pointer hpointer).bind fun _ _ _ => .ok ⟨rfl, hΓ⟩
  | seq first second ihFirst ihSecond =>
    rw [Stmt.rename, Stmt.result_check_seq, Stmt.result_check_seq]
    obtain ⟨hfirst, hsecond⟩ := List.append_subset.1 (List.append_subset.1 hs).1
    refine (ihFirst hfirst inLoop hΓ).bind fun o o' ho => ?_
    -- the second statement is checked in the scopes that the first one leaves, not in the given ones
    rw [ho.returns]
    by_cases hr : o.returns = true
    · rw [if_pos hr, if_pos hr]
      exact .error .unreachableCode
    · rw [if_neg hr, if_neg hr]
      exact ihSecond hsecond inLoop ho.scope

/-- A function passes again, and so is its fault found. -/
theorem funDef_check_follows (hg : g.Follows ρ excused g') (f : FunDef) :
    Follows ρ excused Passes (f.check g).result ((f.rename ρ).check g').result := by
  rw [FunDef.result_check, FunDef.result_check]
  have hΓ := Scope.Follows.ofParams ρ excused (fun _ => True) f.params
  refine (check_follows hg (fun _ _ => trivial) f.returnType f.body (List.Subset.refl _) false hΓ).bind fun o o' ho => ?_
  have hvoid : (f.rename ρ).returnType.isVoid = f.returnType.isVoid := Ty.isVoid_rename ρ f.returnType
  rw [hvoid, ho.returns]
  by_cases hc : (!f.returnType.isVoid && !o.returns) = true
  · rw [if_pos hc, if_pos hc]
    exact .error (.missingReturn f.name f.returnType)
  · rw [if_neg hc, if_neg hc]
    exact .ok trivial

end Runs

end CoreC
