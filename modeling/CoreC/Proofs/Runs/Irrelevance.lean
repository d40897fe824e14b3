import CoreC.Proofs.Runs.Follows

/-!
# Variables that are not mentioned

The checker looks up the variables that a text mentions and no others. Two scopes that agree on these (`Scope.AgreeOn`) may
differ on all others, in type or in having them at all: every verdict is the same, a fault as well as a type, and behind a
statement the scopes agree wherever they agreed in front of it, and on what the statement declares.

The run in the second scope follows the one in the first (`Follows`) with nothing renamed and nothing excused.
-/

namespace CoreC

/-- Two scopes give the same answer for every variable that a text mentions. -/
def Scope.AgreeOn (nodes : List Node) (Γ Γ' : Scope) : Prop :=
  ∀ x, Node.Mentions nodes x → Γ.lookup x = Γ'.lookup x

namespace IrrelevanceAux

variable {g : Globals} {Γ Γ' : Scope} {nodes : List Node}

theorem globals_follows (g : Globals) : g.Follows .keep NoFault g := by
  constructor
  · intro s
    rw [Name.rename_keep]
    exact .refl_keep Decl.map_rename_keep _
  · intro f
    rw [Name.rename_keep]
    exact .refl_keep Signature.rename_keep _

theorem scope_follows (h : Scope.AgreeOn nodes Γ Γ') : Scope.Follows .keep NoFault (Node.Mentions nodes) Γ Γ' := by
  intro x hx
  rw [Name.rename_keep, ← h x hx]
  exact .refl_keep Ty.rename_keep _

/-- An expression has one result in two scopes that agree on what it mentions. -/
theorem result_typeOf_eq (e : Expr) (h : Scope.AgreeOn e.nodes Γ Γ') :
    (e.typeOf g Γ).result = (e.typeOf g Γ').result := by
  have hfollows := Runs.typeOf_follows (globals_follows g) (scope_follows h) (fun _ hx => hx) e (List.Subset.refl _)
  rw [Expr.rename_keep] at hfollows
  exact (hfollows.eq_of_keep Ty.rename_keep fun _ _ => id).symm

/-- A place has one result in two scopes that agree on what it mentions. -/
theorem place_typeOf_eq (l : Place) (h : Scope.AgreeOn l.nodes Γ Γ') : l.typeOf g Γ = l.typeOf g Γ' := by
  have hfollows := Runs.place_typeOf_follows (globals_follows g) (scope_follows h) (fun _ hx => hx) l (List.Subset.refl _)
  rw [Place.rename_keep] at hfollows
  exact (hfollows.eq_of_keep Ty.rename_keep fun _ _ => id).symm

/-- A statement has one fault, or one answer on whether it returns, in two scopes that agree on what it mentions. -/
theorem returns_check_eq (s : Stmt) (returnType : Ty) (inLoop : Bool) (h : Scope.AgreeOn s.nodes Γ Γ') :
    (s.check g returnType inLoop Γ).result.map Outcome.returns =
      (s.check g returnType inLoop Γ').result.map Outcome.returns := by
  have hfollows := Runs.check_follows (globals_follows g) (fun _ hx => hx) returnType s (List.Subset.refl _) inLoop
    (scope_follows h)
  rw [Stmt.rename_keep, Ty.rename_keep] at hfollows
  cases hresult : (s.check g returnType inLoop Γ).result with
  | ok o =>
    rw [hresult] at hfollows
    obtain ⟨o', ho', hout⟩ := hfollows
    rw [ho', Except.map, Except.map, hout.returns]
  | error e =>
    rw [hresult] at hfollows
    rcases hfollows with hnever | he
    · exact hnever.elim
    · rw [he, TypeError.rename_keep]

/-- The scopes behind a statement agree where those in front of it do, and on what the statement declares. -/
theorem scope_check_eq {s : Stmt} {returnType : Ty} {inLoop : Bool} {o o' : Outcome}
    (ho : (s.check g returnType inLoop Γ).result = .ok o) (ho' : (s.check g returnType inLoop Γ').result = .ok o')
    {x : VarName} (hx : Γ.lookup x = Γ'.lookup x ∨ ∃ d ∈ s.spine, d.name = x) :
    o.scope.lookup x = o'.scope.lookup x := by
  rw [Stmt.scope_of_check ho, Stmt.scope_of_check ho']
  exact Scope.lookup_extendAll_congr hx

end IrrelevanceAux

open IrrelevanceAux

/-- Variables that are not mentioned are irrelevant. In two scopes that agree on the variables a text mentions, an expression
and a place have the same type or the same fault, and a statement the same fault or the same answer on whether it returns. The
scopes behind a statement that passes then agree on every variable on which the two agree, and on every one that is declared
on its spine. -/
theorem Scope.unmentioned_irrelevant (g : Globals) (Γ Γ' : Scope) :
    (∀ e : Expr, Scope.AgreeOn e.nodes Γ Γ' → (e.typeOf g Γ).result = (e.typeOf g Γ').result) ∧
    (∀ l : Place, Scope.AgreeOn l.nodes Γ Γ' → l.typeOf g Γ = l.typeOf g Γ') ∧
    ∀ (s : Stmt) (returnType : Ty) (inLoop : Bool), Scope.AgreeOn s.nodes Γ Γ' →
      (s.check g returnType inLoop Γ).result.map Outcome.returns =
        (s.check g returnType inLoop Γ').result.map Outcome.returns ∧
      ∀ o o', (s.check g returnType inLoop Γ).result = .ok o → (s.check g returnType inLoop Γ').result = .ok o' →
        ∀ x, (Γ.lookup x = Γ'.lookup x ∨ ∃ d ∈ s.spine, d.name = x) → o.scope.lookup x = o'.scope.lookup x := by
  refine ⟨?_, ?_, ?_⟩
  · intro e h
    exact result_typeOf_eq e h
  · intro l h
    exact place_typeOf_eq l h
  · intro s returnType inLoop h
    refine ⟨returns_check_eq s returnType inLoop h, ?_⟩
    intro o o' ho ho' x hx
    exact scope_check_eq ho ho' hx

namespace IrrelevanceAux

/-- A statement that mentions one variable and declares others, one of them in a branch. -/
def mentionsOne : Stmt :=
  .seq (.declare ⟨.int, ⟨"y"⟩⟩ (.var ⟨"x"⟩))
    (.ifElse (.bool true) (.declare ⟨.bool, ⟨"z"⟩⟩ (.binary .less (.var ⟨"x"⟩) (.int 1))) (.assign (.var ⟨"x"⟩) (.int 2)))

/-- A scope that has the variable, and another one. -/
def withBool : Scope :=
  Scope.ofParams [⟨.bool, ⟨"y"⟩⟩, ⟨.int, ⟨"x"⟩⟩]

/-- A scope that has the variable too; of the others, one is of another type and one is new. -/
def withChar : Scope :=
  Scope.ofParams [⟨.int, ⟨"x"⟩⟩, ⟨.char, ⟨"y"⟩⟩, ⟨.char, ⟨"z"⟩⟩]

/-- What mentions this variable only does not tell the two scopes apart. -/
theorem agreeOn_of_mentions {nodes : List Node} (h : ∀ x, Node.Mentions nodes x → x = ⟨"x"⟩) :
    Scope.AgreeOn nodes withBool withChar := by
  intro x hx
  rw [h x hx]
  rfl

end IrrelevanceAux

/-- The sum and the place are the same in both scopes, and the statement passes in both. Behind it the variable that it declares
has one type, although it had two in front. -/
theorem Scope.unmentioned_irrelevant_declared :
    withBool.lookup ⟨"y"⟩ = .ok .bool ∧ withChar.lookup ⟨"y"⟩ = .ok .char ∧
      ((Expr.binary .add (.var ⟨"x"⟩) (.int 1)).typeOf {} withBool).result =
        ((Expr.binary .add (.var ⟨"x"⟩) (.int 1)).typeOf {} withChar).result ∧
      (Place.deref (.var ⟨"x"⟩)).typeOf {} withBool = (Place.deref (.var ⟨"x"⟩)).typeOf {} withChar ∧
      (mentionsOne.check {} .void false withBool).result.map Outcome.returns =
        (mentionsOne.check {} .void false withChar).result.map Outcome.returns ∧
      ∃ o o', (mentionsOne.check {} .void false withBool).result = .ok o ∧
        (mentionsOne.check {} .void false withChar).result = .ok o' ∧ o.scope.lookup ⟨"y"⟩ = o'.scope.lookup ⟨"y"⟩ := by
  obtain ⟨hexpr, hplace, hstmt⟩ := Scope.unmentioned_irrelevant {} withBool withChar
  have hsum : Scope.AgreeOn (Expr.binary .add (.var ⟨"x"⟩) (.int 1)).nodes withBool withChar := by
    apply agreeOn_of_mentions
    simp [Node.Mentions, Expr.nodes]
  have htarget : Scope.AgreeOn (Place.deref (.var ⟨"x"⟩)).nodes withBool withChar := by
    apply agreeOn_of_mentions
    simp [Node.Mentions, Place.nodes]
  have hmentions : Scope.AgreeOn mentionsOne.nodes withBool withChar := by
    apply agreeOn_of_mentions
    simp [Node.Mentions, mentionsOne, Stmt.nodes, Expr.nodes, Place.nodes]
  obtain ⟨hreturns, hscope⟩ := hstmt mentionsOne .void false hmentions
  have hdeclared : ∃ d ∈ mentionsOne.spine, d.name = ⟨"y"⟩ := ⟨⟨.int, ⟨"y"⟩⟩, List.mem_cons_self, rfl⟩
  refine ⟨rfl, rfl, hexpr _ hsum, hplace _ htarget, hreturns, _, _, rfl, rfl, ?_⟩
  exact hscope _ _ rfl rfl ⟨"y"⟩ (Or.inr hdeclared)

end CoreC
