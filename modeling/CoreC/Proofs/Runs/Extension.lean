import CoreC.Proofs.Runs.Follows
import CoreC.Proofs.Typing.WellTyped

/-!
# Larger environments

What the checker says in some environment it says in every larger one, with one exception: it may have found that something
is missing (`TypeError.Missing`), and the larger environment may have it. Every other verdict is settled, a fault as well as
a type or an outcome.

The run in the larger environment follows the one in the smaller (`Follows`) with nothing renamed and with those faults
excused. A program with more declarations has larger tables, and a larger environment than the empty one is any at all.
-/

namespace CoreC

/-- Every entry of the first table is in the second one, unchanged. -/
def Tables.Included {kind : NameKind} {ν : Type} (table table' : Std.ExtTreeMap (Name kind) ν) : Prop :=
  ∀ (n : Name kind) (v : ν), table[n]? = some v → table'[n]? = some v

/-- The tables of the first environment are included in those of the second one. -/
structure Globals.Included (g g' : Globals) : Prop where
  structs : Tables.Included g.structs g'.structs
  funs : Tables.Included g.funs g'.funs

/-- The faults that something is missing: a variable, a function or a structure. -/
def TypeError.Missing : TypeError → Prop
  | .unboundVariable _ | .unknownFunction _ | .unknownStruct _ => True
  | _ => False

/-- A result that does not depend on anything missing. -/
def Settled {α : Type} (x : Except TypeError α) : Prop :=
  ∀ e, x = .error e → ¬e.Missing

/-- Two verdicts on a statement are the same: the same fault, or the same answer on whether it returns, with a scope that
includes the first one's. -/
inductive SameVerdict : Except TypeError Outcome → Except TypeError Outcome → Prop where
  | ok {o o' : Outcome} : o'.returns = o.returns → Tables.Included o.scope o'.scope → SameVerdict (.ok o) (.ok o')
  | error (e : TypeError) : SameVerdict (.error e) (.error e)

namespace ExtensionAux

variable {g g' : Globals} {Γ Γ' : Scope}

/-! ## Larger environments follow smaller ones -/

theorem globals_follows (h : g.Included g') : g.Follows .keep TypeError.Missing g' := by
  refine ⟨fun s => ?_, fun f => ?_⟩
  · unfold StructTable.fields
    cases hs : g.structs[s]? with
    | some fields =>
      rw [Name.rename_keep, h.structs s fields hs]
      exact .ok (Decl.map_rename_keep fields).symm
    | none => exact .of_excused trivial _
  · unfold FunTable.signature
    cases hf : g.funs[f]? with
    | some signature =>
      rw [Name.rename_keep, h.funs f signature hf]
      exact .ok signature.rename_keep.symm
    | none => exact .of_excused trivial _

/-- A scope follows another one with missing variables excused exactly when it includes it. -/
theorem scope_follows_iff : Scope.Follows .keep TypeError.Missing (fun _ => True) Γ Γ' ↔ Tables.Included Γ Γ' := by
  refine ⟨fun h x T hx => ?_, fun h x _ => ?_⟩
  · have hlookup := h x trivial
    rw [Scope.lookup_eq_ok_iff.2 hx] at hlookup
    obtain ⟨_, hx', rfl⟩ := hlookup
    rw [Ty.rename_keep, Scope.lookup_eq_ok_iff] at hx'
    exact hx'
  · unfold Scope.lookup
    cases hx : Γ[x]? with
    | some T =>
      rw [Name.rename_keep, h x T hx]
      exact .ok T.rename_keep.symm
    | none => exact .of_excused trivial _

/-! ## What follows a settled result -/

/-- A type is found again, and so is a fault, where nothing is missing. -/
theorem eq_of_follows {x y : Except TypeError Ty} (h : Follows .keep TypeError.Missing (IsImage (Ty.rename .keep)) x y)
    (hx : Settled x) : y = x :=
  h.eq_of_keep Ty.rename_keep hx

/-- A verdict on a statement is found again where nothing is missing. -/
theorem sameVerdict_of_follows {x y : Except TypeError Outcome}
    (h : Follows .keep TypeError.Missing (Runs.OutcomeFollows .keep TypeError.Missing fun _ => True) x y)
    (hx : Settled x) : SameVerdict x y := by
  cases x with
  | ok o =>
    obtain ⟨o', rfl, ho⟩ := h
    exact .ok ho.returns (scope_follows_iff.1 ho.scope)
  | error e =>
    rcases h with he | rfl
    · exact absurd he (hx e rfl)
    · rw [TypeError.rename_keep]
      exact .error e

/-! ## Settled verdicts -/

/-- A settled result for an expression is its result in a larger environment. -/
theorem typeOf_eq_of_included (hg : g.Included g') (hΓ : Tables.Included Γ Γ') (e : Expr)
    (he : Settled (e.typeOf g Γ).result) : (e.typeOf g' Γ').result = (e.typeOf g Γ).result := by
  have hfollows := Runs.typeOf_follows (globals_follows hg) (scope_follows_iff.2 hΓ) (fun _ _ => trivial) e (List.Subset.refl _)
  rw [Expr.rename_keep] at hfollows
  exact eq_of_follows hfollows he

/-- A settled result for a place is its result in a larger environment. -/
theorem place_eq_of_included (hg : g.Included g') (hΓ : Tables.Included Γ Γ') (l : Place) (hl : Settled (l.typeOf g Γ)) :
    l.typeOf g' Γ' = l.typeOf g Γ := by
  have hfollows := Runs.place_typeOf_follows (globals_follows hg) (scope_follows_iff.2 hΓ) (fun _ _ => trivial) l (List.Subset.refl _)
  rw [Place.rename_keep] at hfollows
  exact eq_of_follows hfollows hl

/-- A settled verdict on a statement is its verdict in a larger environment. -/
theorem sameVerdict_of_included (hg : g.Included g') (hΓ : Tables.Included Γ Γ') (s : Stmt) (returnType : Ty)
    (inLoop : Bool) (hs : Settled (s.check g returnType inLoop Γ).result) :
    SameVerdict (s.check g returnType inLoop Γ).result (s.check g' returnType inLoop Γ').result := by
  have hfollows := Runs.check_follows (globals_follows hg) (fun _ _ => trivial) returnType s (List.Subset.refl _) inLoop
    (scope_follows_iff.2 hΓ)
  rw [Stmt.rename_keep, Ty.rename_keep] at hfollows
  exact sameVerdict_of_follows hfollows hs

/-- The type of an expression that stands alone is its type everywhere. -/
theorem typeOf_of_typeOfClosed {e : Expr} {T : Ty} (he : e.typeOfClosed.result = .ok T) (g : Globals) (Γ : Scope) :
    (e.typeOf g Γ).result = .ok T := by
  have hg : Globals.Included {} g := ⟨fun n v h => by simp at h, fun n v h => by simp at h⟩
  have hΓ : Tables.Included (∅ : Scope) Γ := fun x T h => by simp at h
  have hsettled : Settled (e.typeOf {} ∅).result := by
    intro err herr
    rw [Expr.typeOfClosed, herr] at he
    cases he
  rw [typeOf_eq_of_included hg hΓ e hsettled]
  exact he

/-! ## Programs -/

/-- A program with more declarations has larger tables. -/
theorem globals_included {p p' : Program} (hs : p.structs ⊆ p'.structs) (hf : p.funs ⊆ p'.funs)
    (hg : p.globals.result = .ok g) (hg' : p'.globals.result = .ok g') : g.Included g' := by
  have hd := WellTypedAux.describes_of_globals hg
  have hd' := WellTypedAux.describes_of_globals hg'
  refine ⟨fun s fields h => ?_, fun name signature h => ?_⟩
  · rw [hd.structs] at h
    rw [hd'.structs]
    exact hs h
  · rw [hd.funs] at h
    rw [hd'.funs]
    obtain ⟨f, hmem, hentry⟩ := h
    exact ⟨f, hf hmem, hentry⟩

/-- A function that passes against tables passes against larger ones. -/
theorem check_ok_of_included (h : g.Included g') {f : FunDef} (hf : (f.check g).result = .ok ()) :
    (f.check g').result = .ok () := by
  have hfollows := Runs.funDef_check_follows (globals_follows h) f
  rw [hf, FunDef.rename_keep] at hfollows
  obtain ⟨_, hf', -⟩ := hfollows
  exact hf'

end ExtensionAux

open ExtensionAux

/-- A larger environment changes no settled verdict. With larger tables and a larger scope, a settled result for an
expression or a place is the same, and so is a settled verdict on a statement. A function that passes against the tables of a
program passes against those of a program with more declarations, and the type of an expression that stands alone is its type
in every environment. -/
theorem Globals.settled_of_included :
    (∀ g g' : Globals, g.Included g' → ∀ Γ Γ' : Scope, Tables.Included Γ Γ' →
      (∀ e : Expr, Settled (e.typeOf g Γ).result → (e.typeOf g' Γ').result = (e.typeOf g Γ).result) ∧
      (∀ l : Place, Settled (l.typeOf g Γ) → l.typeOf g' Γ' = l.typeOf g Γ) ∧
      ∀ (s : Stmt) (returnType : Ty) (inLoop : Bool), Settled (s.check g returnType inLoop Γ).result →
        SameVerdict (s.check g returnType inLoop Γ).result (s.check g' returnType inLoop Γ').result) ∧
    (∀ (p p' : Program) (g g' : Globals), p.structs ⊆ p'.structs → p.funs ⊆ p'.funs → p.globals.result = .ok g →
      p'.globals.result = .ok g' → ∀ f : FunDef, (f.check g).result = .ok () → (f.check g').result = .ok ()) ∧
    ∀ (e : Expr) (T : Ty), e.typeOfClosed.result = .ok T → ∀ (g : Globals) (Γ : Scope), (e.typeOf g Γ).result = .ok T := by
  refine ⟨fun g g' hg Γ Γ' hΓ => ⟨?_, ?_, ?_⟩, fun p p' g g' hs hf hg hg' f => ?_, fun e T => ?_⟩
  · exact typeOf_eq_of_included hg hΓ
  · exact place_eq_of_included hg hΓ
  · exact sameVerdict_of_included hg hΓ
  · exact check_ok_of_included (globals_included hs hf hg hg')
  · exact typeOf_of_typeOfClosed

namespace ExtensionAux

/-- A function that returns its argument. -/
def identity : FunDef where
  returnType := .int
  name := ⟨"f"⟩
  params := [⟨.int, ⟨"n"⟩⟩]
  body := .returnValue (.var ⟨"n"⟩)

/-- A program that defines this function only. -/
def alone : Program where
  funs := [identity]

/-- A program that declares a structure and another function as well. -/
def accompanied : Program where
  structs := [⟨⟨"S"⟩, []⟩]
  funs := [⟨.struct ⟨"S"⟩, ⟨"g"⟩, [], .returnValue (.construct ⟨"S"⟩ [])⟩, identity]

/-- The tables of the program with one function. -/
def aloneGlobals : Globals where
  funs := (∅ : FunTable).insert ⟨"f"⟩ identity.signature

/-- The tables of the program with more declarations. -/
def accompaniedGlobals : Globals where
  structs := (∅ : StructTable).insert ⟨"S"⟩ []
  funs := ((∅ : FunTable).insert ⟨"g"⟩ ⟨[], .struct ⟨"S"⟩⟩).insert ⟨"f"⟩ identity.signature

/-- A scope with one variable. -/
def oneVariable : Scope :=
  (∅ : Scope).insert ⟨"x"⟩ .int

/-- A scope with that variable and another one. -/
def twoVariables : Scope :=
  ((∅ : Scope).insert ⟨"z"⟩ .bool).insert ⟨"x"⟩ .int

/-- A function that calls another one and returns what it gets. -/
def caller : FunDef where
  returnType := .int
  name := ⟨"main"⟩
  params := []
  body := .seq (.declare ⟨.int, ⟨"y"⟩⟩ (.call ⟨"f"⟩ [.int 1])) (.returnValue (.var ⟨"y"⟩))

end ExtensionAux

/-- A call with an argument of a wrong type stays at fault, a place that is no pointer stays none, a declaration and a function
pass as before, and a sum of numbers is a number everywhere. -/
theorem Globals.settled_of_included_call :
    ((Expr.call ⟨"f"⟩ [.bool true]).typeOf accompaniedGlobals twoVariables).result = .error (.typeMismatch .int .bool) ∧
      (Place.deref (.var ⟨"x"⟩)).typeOf accompaniedGlobals twoVariables = .error (.notAPointer .int) ∧
      SameVerdict (caller.body.check aloneGlobals .int false oneVariable).result
        (caller.body.check accompaniedGlobals .int false twoVariables).result ∧
      (caller.check accompaniedGlobals).result = .ok () ∧
      ((Expr.binary .add (.int 1) (.int 2)).typeOf accompaniedGlobals twoVariables).result = .ok .int := by
  have halone : alone.globals.result = .ok aloneGlobals := rfl
  have haccompanied : accompanied.globals.result = .ok accompaniedGlobals := rfl
  have hstructs : alone.structs ⊆ accompanied.structs := List.nil_subset _
  have hfuns : alone.funs ⊆ accompanied.funs := List.subset_cons_self _ _
  have hΓ : Tables.Included oneVariable twoVariables := by
    intro y T h
    rw [oneVariable, Std.ExtTreeMap.getElem?_insert] at h
    rw [twoVariables, Std.ExtTreeMap.getElem?_insert]
    split at h
    · rename_i hy
      rw [if_pos hy]
      exact h
    · simp at h
  obtain ⟨hsettled, hprograms, hclosed⟩ := Globals.settled_of_included
  have hg : aloneGlobals.Included accompaniedGlobals := globals_included hstructs hfuns halone haccompanied
  obtain ⟨hexpr, hplace, hstmt⟩ := hsettled aloneGlobals accompaniedGlobals hg oneVariable twoVariables hΓ
  refine ⟨hexpr (.call ⟨"f"⟩ [.bool true]) ?_, hplace (.deref (.var ⟨"x"⟩)) ?_, hstmt caller.body .int false ?_, ?_, ?_⟩
  · intro e he
    cases he
    exact id
  · intro e he
    cases he
    exact id
  · intro e he
    cases he
  · exact hprograms alone accompanied _ _ hstructs hfuns halone haccompanied caller rfl
  · exact hclosed (.binary .add (.int 1) (.int 2)) .int rfl accompaniedGlobals twoVariables

end CoreC
