import CoreC.Proofs.Typing.Scopes

/-!
# Places for variables

A place is typed by rules of its own (`Place.typeOf`), and it can also be read as an expression and typed as one. The two
give the same result, the type or the fault, and so does the way over its address.

A substitution puts a place where a variable stands: as an expression where the variable is read, as it is where the variable
begins a place. If each variable of a scope has the result that its place has in another scope (`Substitution.Relates`), then
an expression has in the first scope the result that it has after the substitution in the second one. A scope with one more
variable is related so to the scope without it, as soon as some place has the type of the variable; the place may mention an
older variable of the same name, since what is put in is not substituted again.
-/

namespace CoreC

/-! ## Places as expressions -/

/-- A place and the expression that reads it have the same result. -/
theorem Place.result_typeOf_toExpr (g : Globals) (Γ : Scope) (l : Place) :
    (l.toExpr.typeOf g Γ).result = l.typeOf g Γ := by
  induction l with
  | var x => rw [toExpr, Expr.result_typeOf_var, typeOf]
  | field base f ih => rw [toExpr, Expr.result_typeOf_field, ih, typeOf]
  | deref pointer ih => rw [toExpr, Expr.result_typeOf_deref, ih, typeOf]

/-- What the address of a place points at has the result of the place. -/
theorem Place.result_typeOf_deref_addressOf (g : Globals) (Γ : Scope) (l : Place) :
    ((Expr.deref (.addressOf l)).typeOf g Γ).result = l.typeOf g Γ := by
  rw [Expr.result_typeOf_deref, Expr.result_typeOf_addressOf]
  cases l.typeOf g Γ with
  | ok T => rfl
  | error e => rfl

/-- The two ways to type a place agree: by its own rules and as the expression that reads it. The way over its address agrees
with both. -/
theorem Place.typeOf_agrees (g : Globals) (Γ : Scope) (l : Place) :
    l.typeOf g Γ = (l.toExpr.typeOf g Γ).result ∧
      ((Expr.deref (.addressOf l)).typeOf g Γ).result = l.typeOf g Γ := by
  constructor
  · rw [Place.result_typeOf_toExpr]
  · rw [Place.result_typeOf_deref_addressOf]

/-! ## Substitutions -/

/-- A place for each variable. -/
abbrev Substitution := VarName → Place

/-- A place for one variable; every other one stays. -/
def Substitution.single (x : VarName) (l : Place) : Substitution :=
  fun y => if y = x then l else .var y

/-- A place with its variable replaced. -/
def Place.subst (σ : Substitution) : Place → Place
  | .var x => σ x
  | .field base f => .field (base.subst σ) f
  | .deref pointer => .deref (pointer.subst σ)

mutual

/-- An expression with all variables replaced at once. -/
def Expr.subst (σ : Substitution) : Expr → Expr
  | .int value => .int value
  | .char value => .char value
  | .bool value => .bool value
  | .var x => (σ x).toExpr
  | .malloc size => .malloc (size.subst σ)
  | .free pointer => .free (pointer.subst σ)
  | .sizeof ty => .sizeof ty
  | .binary op left right => .binary op (left.subst σ) (right.subst σ)
  | .construct name arguments => .construct name (Expr.listSubst σ arguments)
  | .call name arguments => .call name (Expr.listSubst σ arguments)
  | .cast target operand => .cast target (operand.subst σ)
  | .addressOf place => .addressOf (place.subst σ)
  | .deref pointer => .deref (pointer.subst σ)
  | .field object f => .field (object.subst σ) f

/-- Some expressions with all variables replaced at once. -/
def Expr.listSubst (σ : Substitution) : List Expr → List Expr
  | [] => []
  | e :: es => e.subst σ :: Expr.listSubst σ es

end

theorem Expr.length_listSubst (σ : Substitution) (es : List Expr) : (Expr.listSubst σ es).length = es.length := by
  induction es with
  | nil => rfl
  | cons e es ih => rw [listSubst, List.length_cons, List.length_cons, ih]

/-! ## Results under a substitution -/

/-- Each variable has in the first scope the result that its place has in the second one. -/
def Substitution.Relates (σ : Substitution) (g : Globals) (Γ' Γ : Scope) : Prop :=
  ∀ x, Γ'.lookup x = (σ x).typeOf g Γ

/-- A scope with one more variable is related to the scope without it by a place that has the type of the variable. -/
theorem Substitution.single_relates {g : Globals} {Γ : Scope} {x : VarName} {T : Ty} {l : Place}
    (hl : l.typeOf g Γ = .ok T) : (Substitution.single x l).Relates g (Γ.extend ⟨T, x⟩) Γ := by
  intro y
  rw [Scope.lookup_extend, Substitution.single]
  by_cases hy : y = x
  · rw [if_pos hy, if_pos hy.symm, hl]
  · rw [if_neg hy, if_neg (Ne.symm hy), Place.typeOf]

namespace SubstitutionAux

variable {σ : Substitution} {g : Globals} {Γ Γ' : Scope}

/-- A place has the result that it has with its variable replaced. -/
theorem typeOf_place_subst (hσ : σ.Relates g Γ' Γ) (l : Place) : l.typeOf g Γ' = (l.subst σ).typeOf g Γ := by
  induction l with
  | var x => exact hσ x
  | field base f ih => rw [Place.subst, Place.typeOf, Place.typeOf, ih]
  | deref pointer ih => rw [Place.subst, Place.typeOf, Place.typeOf, ih]

mutual

/-- An expression has the result that it has with its variables replaced. -/
theorem result_typeOf_subst (hσ : σ.Relates g Γ' Γ) :
    ∀ e : Expr, (e.typeOf g Γ').result = ((e.subst σ).typeOf g Γ).result
  | .int value => by rw [Expr.subst, Expr.result_typeOf_int, Expr.result_typeOf_int]
  | .char value => by rw [Expr.subst, Expr.result_typeOf_char, Expr.result_typeOf_char]
  | .bool value => by rw [Expr.subst, Expr.result_typeOf_bool, Expr.result_typeOf_bool]
  | .var x => by
    -- what is put in for the variable is read as an expression, and typed as the place it is
    rw [Expr.subst, Expr.result_typeOf_var, Place.result_typeOf_toExpr, hσ x]
  | .malloc size => by
    rw [Expr.subst, Expr.result_typeOf_malloc, Expr.result_typeOf_malloc, result_typeOf_subst hσ size]
  | .free pointer => by
    rw [Expr.subst, Expr.result_typeOf_free, Expr.result_typeOf_free, result_typeOf_subst hσ pointer]
  | .sizeof ty => by rw [Expr.subst, Expr.result_typeOf_sizeof, Expr.result_typeOf_sizeof]
  | .binary op left right => by
    rw [Expr.subst, Expr.result_typeOf_binary, Expr.result_typeOf_binary, result_typeOf_subst hσ left,
      result_typeOf_subst hσ right]
  | .construct name arguments => by
    rw [Expr.subst, Expr.result_typeOf_construct, Expr.result_typeOf_construct, Expr.length_listSubst]
    simp only [result_checkArguments_subst hσ _ arguments]
  | .call name arguments => by
    rw [Expr.subst, Expr.result_typeOf_call, Expr.result_typeOf_call, Expr.length_listSubst]
    simp only [result_checkArguments_subst hσ _ arguments]
  | .cast target operand => by
    rw [Expr.subst, Expr.result_typeOf_cast, Expr.result_typeOf_cast, result_typeOf_subst hσ operand]
  | .addressOf place => by
    rw [Expr.subst, Expr.result_typeOf_addressOf, Expr.result_typeOf_addressOf, typeOf_place_subst hσ place]
  | .deref pointer => by
    rw [Expr.subst, Expr.result_typeOf_deref, Expr.result_typeOf_deref, result_typeOf_subst hσ pointer]
  | .field object f => by
    rw [Expr.subst, Expr.result_typeOf_field, Expr.result_typeOf_field, result_typeOf_subst hσ object]

theorem result_checkArguments_subst (hσ : σ.Relates g Γ' Γ) : ∀ (types : List Ty) (arguments : List Expr),
    (Expr.checkArguments g Γ' types arguments).result =
      (Expr.checkArguments g Γ types (Expr.listSubst σ arguments)).result
  | types, [] => by rw [Expr.listSubst, Expr.result_checkArguments_nil, Expr.result_checkArguments_nil]
  | [], _ :: _ => rfl
  | expected :: types, e :: arguments => by
    rw [Expr.listSubst, Expr.result_checkArguments_cons, Expr.result_checkArguments_cons, result_typeOf_subst hσ e,
      result_checkArguments_subst hσ types arguments]

end

end SubstitutionAux

open SubstitutionAux

/-- A variable can be replaced by a place of its type: an expression has, in a scope with the variable added, the result that
it has in the scope without it once the place is put in for the variable. So does a place. -/
theorem Expr.typeOf_subst_single (g : Globals) (Γ : Scope) (x : VarName) (T : Ty) (l : Place)
    (hl : l.typeOf g Γ = .ok T) :
    (∀ e : Expr, (e.typeOf g (Γ.extend ⟨T, x⟩)).result = ((e.subst (.single x l)).typeOf g Γ).result) ∧
      ∀ l' : Place, l'.typeOf g (Γ.extend ⟨T, x⟩) = (l'.subst (.single x l)).typeOf g Γ := by
  have hσ := Substitution.single_relates (x := x) hl
  constructor
  · intro e
    exact result_typeOf_subst hσ e
  · intro l'
    exact typeOf_place_subst hσ l'

namespace SubstitutionAux

/-- Tables with one structure, which has a number in it. -/
def cellGlobals : Globals where
  structs := (∅ : StructTable).insert ⟨"Cell"⟩ [⟨.int, ⟨"n"⟩⟩]

/-- A scope with a pointer to such a structure. -/
def cellScope : Scope :=
  Scope.ofParams [⟨.pointer (.struct ⟨"Cell"⟩), ⟨"x"⟩⟩]

/-- The number behind the pointer. -/
def cellNumber : Place :=
  .field (.deref (.var ⟨"x"⟩)) ⟨"n"⟩

end SubstitutionAux

/-- The number behind a pointer in place of a number of the same name: a sum of it, read and reached by its address, is a
number, and it points at nothing. -/
theorem Expr.typeOf_subst_single_shadowed :
    cellNumber.typeOf cellGlobals cellScope = .ok .int ∧
      ((Expr.binary .add cellNumber.toExpr (.deref (.addressOf cellNumber))).typeOf cellGlobals cellScope).result =
        .ok .int ∧
      (Place.deref cellNumber).typeOf cellGlobals cellScope = .error (.notAPointer .int) := by
  have hnumber : cellNumber.typeOf cellGlobals cellScope = .ok .int := rfl
  obtain ⟨hexpr, hplace⟩ := Expr.typeOf_subst_single cellGlobals cellScope ⟨"x"⟩ .int cellNumber hnumber
  refine ⟨hnumber, ?_, ?_⟩
  · exact (hexpr (.binary .add (.var ⟨"x"⟩) (.deref (.addressOf (.var ⟨"x"⟩))))).symm
  · exact (hplace (.deref (.var ⟨"x"⟩))).symm

end CoreC
