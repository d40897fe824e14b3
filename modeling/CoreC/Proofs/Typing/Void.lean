import CoreC.Proofs.Typing.Sites
import CoreC.Proofs.Typing.WellTyped

/-!
# Where `void` can be

Nothing can hold a `void`: no field, no parameter and no variable has that type. Fields and parameters are looked at when the
tables are built, and variables where they are declared; here is what follows from it. If no variable of a scope is `void`,
none is in any scope on the way through a statement (`Stmt.Site.Reaches`), a value of type `void` can come only from a
release, a call, a conversion or from what a pointer points at, and no argument is one.
-/

namespace CoreC

/-- No variable of the scope is `void`. -/
def Scope.VoidFree (Γ : Scope) : Prop :=
  ∀ (x : VarName) (T : Ty), Γ[x]? = some T → T ≠ .void

/-- The expressions that can be `void`: a release, a call, a conversion, and what a pointer points at. -/
def Expr.MayBeVoid : Expr → Prop
  | .free _ | .call _ _ | .cast _ _ | .deref _ => True
  | _ => False

/-- The arguments of a call or of a construction; no other expression has any. -/
def Expr.arguments : Expr → List Expr
  | .call _ arguments | .construct _ arguments => arguments
  | _ => []

namespace VoidAux

variable {p : Program} {g : Globals} {Γ : Scope}

/-! ## Scopes -/

/-- A scope stays free of `void` with a variable that is not. -/
theorem voidFree_insert (hΓ : Γ.VoidFree) {x : VarName} {T : Ty} (hT : T ≠ .void) :
    Scope.VoidFree (Γ.insert x T) := by
  intro y U hU
  rw [Std.ExtTreeMap.getElem?_insert] at hU
  split at hU
  · cases hU
    exact hT
  · exact hΓ y U hU

/-- Parameters that are in order make a scope without `void`. -/
theorem voidFree_ofParams {params : List (Decl .var)} (h : Decl.Valid params) : (Scope.ofParams params).VoidFree := by
  obtain ⟨hn, hv⟩ := h
  have hbinds : Scope.Binds (Scope.ofParams params) params := (WellTypedAux.binds_iff_eq_ofParams hn _).2 rfl
  intro x T hx
  exact hv _ ((hbinds x T).1 hx)

/-- A statement adds no `void` variable. -/
theorem voidFree_of_typed {returnType : Ty} {inLoop returns : Bool} {s : Stmt} {Γ' : Scope}
    (h : s.Typed p returnType inLoop Γ Γ' returns) (hΓ : Γ.VoidFree) : Γ'.VoidFree := by
  induction h with
  | declare hT _ => exact voidFree_insert hΓ hT
  | seq _ _ ih₁ ih₂ => exact ih₂ (ih₁ hΓ)
  | _ => exact hΓ

/-- A statement that passes leaves a scope without `void`. -/
theorem voidFree_of_check (hg : g.Describes p) {returnType : Ty} {inLoop : Bool} {s : Stmt} {o : Outcome}
    (h : (s.check g returnType inLoop Γ).result = .ok o) (hΓ : Γ.VoidFree) : o.scope.VoidFree :=
  voidFree_of_typed ((Adequacy.stmt_check_eq_ok_iff hg s).1 h) hΓ

/-- From one site to the next, no variable becomes `void`. -/
theorem voidFree_of_turnsTo (hg : g.Describes p) {returnType : Ty} {site site' : Stmt.Site}
    (h : site.TurnsTo g returnType site') (hΓ : site.scope.VoidFree) : site'.scope.VoidFree := by
  cases h with
  | thenBranch | elseBranch | body | first => exact hΓ
  | second hfirst _ => exact voidFree_of_check hg hfirst hΓ

/-- Every place of a body that the check reaches has a scope without `void`. -/
theorem voidFree_of_reaches (hg : g.Describes p) {returnType : Ty} {site site' : Stmt.Site}
    (h : site.Reaches g returnType site') (hΓ : site.scope.VoidFree) : site'.scope.VoidFree := by
  induction h with
  | refl => exact hΓ
  | tail _ hturn ih => exact voidFree_of_turnsTo hg hturn ih

/-! ## Expressions and places -/

/-- No field of a program is `void`. -/
theorem ne_void_of_hasField (hp : ∀ s ∈ p.structs, Decl.Valid s.fields) {s : StructName} {f : FieldName} {T : Ty}
    (h : p.HasField s f T) : T ≠ .void := by
  obtain ⟨decl, hdecl, -, hf⟩ := h
  exact (hp decl hdecl).2 _ hf

/-- Only what is pointed at can be a `void` place. -/
theorem eq_deref_of_hasType (hp : ∀ s ∈ p.structs, Decl.Valid s.fields) (hΓ : Γ.VoidFree) {l : Place} {T : Ty}
    (h : l.HasType p Γ T) (hT : T = .void) : ∃ pointer, l = .deref pointer := by
  cases h with
  | var hx => exact absurd hT (hΓ _ _ hx)
  | field _ hf => exact absurd hT (ne_void_of_hasField hp hf)
  | deref _ => exact ⟨_, rfl⟩

theorem mayBeVoid_of_hasType (hp : ∀ s ∈ p.structs, Decl.Valid s.fields) (hΓ : Γ.VoidFree) {e : Expr} {T : Ty}
    (h : e.HasType p Γ T) (hT : T = .void) : e.MayBeVoid := by
  cases h with
  | free | call | cast | deref => trivial
  | var hx => exact absurd hT (hΓ _ _ hx)
  | field _ hf => exact absurd hT (ne_void_of_hasField hp hf)
  | binary _ _ hop =>
    subst hT
    cases hop
  | int | char | bool | malloc | sizeof | construct | addressOf => cases hT

/-- Arguments that are passed for types that are not `void` are not `void`. -/
theorem exists_ne_void_of_haveTypes {arguments : List Expr} {types : List Ty} (h : Expr.HaveTypes p Γ arguments types)
    (ht : ∀ T ∈ types, T ≠ .void) : ∀ a ∈ arguments, ∃ T, T ≠ .void ∧ a.HasType p Γ T := by
  induction arguments generalizing types with
  | nil =>
    intro a ha
    cases ha
  | cons e arguments ih =>
    intro a ha
    cases h with
    | cons he hrest =>
      rw [List.forall_mem_cons] at ht
      rcases List.mem_cons.1 ha with rfl | ha
      · exact ⟨_, ht.1, he⟩
      · exact ih hrest ht.2 a ha

theorem ne_void_of_valid {kind : NameKind} {decls : List (Decl kind)} (h : Decl.Valid decls) :
    ∀ T ∈ decls.map Decl.ty, T ≠ .void := by
  intro T hT
  obtain ⟨d, hd, rfl⟩ := List.mem_map.1 hT
  exact h.2 d hd

/-- No argument of an expression with a type is `void`. -/
theorem exists_ne_void_of_hasType (hs : ∀ s ∈ p.structs, Decl.Valid s.fields) (hf : ∀ f ∈ p.funs, Decl.Valid f.params)
    {e : Expr} {T : Ty} (h : e.HasType p Γ T) : ∀ a ∈ e.arguments, ∃ U, U ≠ .void ∧ a.HasType p Γ U := by
  cases h with
  | construct hdecl ha => exact exists_ne_void_of_haveTypes ha (ne_void_of_valid (hs _ hdecl))
  | call hdecl ha => exact exists_ne_void_of_haveTypes ha (ne_void_of_valid (hf _ hdecl))
  | _ =>
    intro a ha
    cases ha

end VoidAux

open VoidAux

/-- `void` is confined. The parameters of a function of a program that has tables are not `void`. In a scope where no
variable is, none is at any site that the check of a statement gets to, nor behind the statement there; a statement that
passes is gone through to its last part. An expression that is `void` is a release, a call, a conversion or what a pointer
points at, a place that is `void` is what a place points at, and the arguments of an expression that has a type have types
that are not `void`. -/
theorem Program.void_confined (p : Program) (g : Globals) (hg : p.globals.result = .ok g) :
    (∀ f ∈ p.funs, (Scope.ofParams f.params).VoidFree) ∧
    ∀ Γ : Scope, Γ.VoidFree →
      (∀ (returnType : Ty) (inLoop : Bool) (s : Stmt),
        (∀ site, Stmt.Site.Reaches g returnType ⟨inLoop, Γ, s⟩ site →
          site.scope.VoidFree ∧ ∀ o, (site.check g returnType).result = .ok o → o.scope.VoidFree) ∧
        ∀ o, (s.check g returnType inLoop Γ).result = .ok o → ∀ s', .stmt s' ∈ s.nodes →
          ∃ inLoop' Γ', Stmt.Site.Reaches g returnType ⟨inLoop, Γ, s⟩ ⟨inLoop', Γ', s'⟩) ∧
      (∀ e : Expr, (e.typeOf g Γ).result = .ok .void → e.MayBeVoid) ∧
      (∀ l : Place, l.typeOf g Γ = .ok .void → ∃ pointer, l = .deref pointer) ∧
      ∀ (e : Expr) (T : Ty), (e.typeOf g Γ).result = .ok T →
        ∀ a ∈ e.arguments, ∃ U, U ≠ .void ∧ (a.typeOf g Γ).result = .ok U := by
  have hd := WellTypedAux.describes_of_globals hg
  obtain ⟨-, hfields, -, hparams⟩ := (WellTypedAux.exists_globals_iff p).1 ⟨g, hg⟩
  refine ⟨fun f hf => voidFree_ofParams (hparams f hf), fun Γ hΓ => ⟨?_, ?_, ?_, ?_⟩⟩
  · intro returnType inLoop s
    refine ⟨fun site hr => ?_, fun o ho s' hs' => Stmt.Site.exists_reaches_of_mem_nodes s ho hs'⟩
    have hsite : site.scope.VoidFree := voidFree_of_reaches hd hr hΓ
    exact ⟨hsite, fun o ho => voidFree_of_check hd ho hsite⟩
  · intro e he
    exact mayBeVoid_of_hasType hfields hΓ ((Adequacy.expr_typeOf_eq_ok_iff hd e).1 he) rfl
  · intro l hl
    exact eq_deref_of_hasType hfields hΓ ((Adequacy.place_typeOf_eq_ok_iff hd l).1 hl) rfl
  · intro e T he a ha
    obtain ⟨U, hU, hUa⟩ := exists_ne_void_of_hasType hfields hparams ((Adequacy.expr_typeOf_eq_ok_iff hd e).1 he) a ha
    exact ⟨U, hU, (Adequacy.expr_typeOf_eq_ok_iff hd a).2 hUa⟩

namespace VoidAux

/-- A structure with a pointer in it. -/
def box : StructDecl where
  name := ⟨"Box"⟩
  fields := [⟨.voidPointer, ⟨"p"⟩⟩]

/-- A function that releases what is in such a structure. -/
def release : FunDef where
  returnType := .void
  name := ⟨"release"⟩
  params := [⟨.struct ⟨"Box"⟩, ⟨"b"⟩⟩]
  body := .seq (.declare ⟨.voidPointer, ⟨"q"⟩⟩ (.field (.var ⟨"b"⟩) ⟨"p"⟩)) (.free (.var ⟨"q"⟩))

/-- A program with both. -/
def releasing : Program where
  structs := [box]
  funs := [release]

/-- Its tables. -/
def releasingGlobals : Globals where
  structs := (∅ : StructTable).insert ⟨"Box"⟩ box.fields
  funs := (∅ : FunTable).insert ⟨"release"⟩ release.signature

end VoidAux

/-- A function that releases what is in a structure: no variable is `void` at the release, a call of the function is `void`
and its argument is not, and neither is the field that points at a `void`. -/
theorem Program.void_confined_release :
    releasing.globals.result = .ok releasingGlobals ∧
      ((Scope.ofParams release.params).extend ⟨.voidPointer, ⟨"q"⟩⟩).VoidFree ∧
      (((Expr.call ⟨"release"⟩ [.var ⟨"b"⟩]).typeOf releasingGlobals (Scope.ofParams release.params)).result = .ok .void ∧
        (Expr.call ⟨"release"⟩ [.var ⟨"b"⟩]).MayBeVoid) ∧
      (∃ U, U ≠ .void ∧ ((Expr.var ⟨"b"⟩).typeOf releasingGlobals (Scope.ofParams release.params)).result = .ok U) ∧
      (Place.field (.var ⟨"b"⟩) ⟨"p"⟩).typeOf releasingGlobals (Scope.ofParams release.params) ≠ .ok .void := by
  have hg : releasing.globals.result = .ok releasingGlobals := rfl
  obtain ⟨hparams, hconfined⟩ := Program.void_confined releasing releasingGlobals hg
  obtain ⟨hsites, hexprs, hplaces, harguments⟩ := hconfined _ (hparams release List.mem_cons_self)
  have hreached : Stmt.Site.Reaches releasingGlobals .void ⟨false, Scope.ofParams release.params, release.body⟩
      ⟨false, (Scope.ofParams release.params).extend ⟨.voidPointer, ⟨"q"⟩⟩, .free (.var ⟨"q"⟩)⟩ :=
    .single (.second (o := ⟨(Scope.ofParams release.params).extend ⟨.voidPointer, ⟨"q"⟩⟩, false⟩) rfl rfl)
  refine ⟨hg, ((hsites .void false release.body).1 _ hreached).1, ⟨rfl, hexprs _ rfl⟩, ?_, ?_⟩
  · exact harguments (.call ⟨"release"⟩ [.var ⟨"b"⟩]) .void rfl _ List.mem_cons_self
  · intro hvoid
    obtain ⟨pointer, hpointer⟩ := hplaces _ hvoid
    cases hpointer

end CoreC
