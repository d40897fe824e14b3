import CoreC.Proofs.Syntax.Nodes
import CoreC.Proofs.Tables

/-!
# The scope behind a statement

A statement that passes leaves the scope it stands in, extended with the declarations on its spine in their order. So a
scope only ever grows: what could be used before a statement can be used behind it, at its old type or at a new one.
-/

namespace CoreC

/-- A variable that is added is looked up to its new type, every other one as before. -/
theorem Scope.lookup_extend (Γ : Scope) (decl : Decl .var) (x : VarName) :
    (Γ.extend decl).lookup x = if decl.name = x then .ok decl.ty else Γ.lookup x := by
  unfold Scope.lookup Scope.extend
  rw [Std.ExtTreeMap.getElem?_insert]
  by_cases hx : decl.name = x <;> simp [hx]

/-- A scope with some more variables, the later ones over the earlier ones. -/
def Scope.extendAll (Γ : Scope) (decls : List (Decl .var)) : Scope :=
  decls.foldl Scope.extend Γ

theorem Scope.ofParams_eq_extendAll (params : List (Decl .var)) : Scope.ofParams params = extendAll ∅ params := rfl

theorem Scope.extendAll_append (Γ : Scope) (decls decls' : List (Decl .var)) :
    Γ.extendAll (decls ++ decls') = (Γ.extendAll decls).extendAll decls' :=
  List.foldl_append

/-- A variable is in an extended scope if it was there before or is one of those added. -/
theorem Scope.mem_extendAll_iff {Γ : Scope} {decls : List (Decl .var)} {x : VarName} :
    x ∈ Γ.extendAll decls ↔ x ∈ Γ ∨ x ∈ decls.map Decl.name := by
  have h : x ∈ Tables.fill Decl.name Decl.ty Γ decls ↔ _ := Tables.mem_fill_iff decls Γ
  exact h

/-- A variable that is not among those added is looked up as before. -/
theorem Scope.lookup_extendAll_of_forall_ne {Γ : Scope} {decls : List (Decl .var)} {x : VarName}
    (hx : ∀ d ∈ decls, d.name ≠ x) : (Γ.extendAll decls).lookup x = Γ.lookup x := by
  have h : (Tables.fill Decl.name Decl.ty Γ decls)[x]? = Γ[x]? := Tables.getElem?_fill_of_forall_ne decls Γ hx
  have hfill : Γ.extendAll decls = Tables.fill Decl.name Decl.ty Γ decls := rfl
  rw [lookup, lookup, hfill, h]

/-- A variable is looked up to the last declaration of its name. -/
theorem Scope.lookup_extendAll_of_last (Γ : Scope) {before behind : List (Decl .var)} {d : Decl .var}
    (hd : ∀ d' ∈ behind, d'.name ≠ d.name) : (Γ.extendAll (before ++ d :: behind)).lookup d.name = .ok d.ty := by
  have hcons : (Γ.extendAll before).extendAll (d :: behind) = ((Γ.extendAll before).extend d).extendAll behind := rfl
  rw [extendAll_append, hcons, lookup_extendAll_of_forall_ne hd, lookup_extend, if_pos rfl]

/-- Two scopes that look up a variable alike, or are extended by it, do so with the same declarations added to both. -/
theorem Scope.lookup_extendAll_congr {Γ Γ' : Scope} {decls : List (Decl .var)} {x : VarName}
    (h : Γ.lookup x = Γ'.lookup x ∨ ∃ d ∈ decls, d.name = x) :
    (Γ.extendAll decls).lookup x = (Γ'.extendAll decls).lookup x := by
  induction decls generalizing Γ Γ' with
  | nil =>
    rcases h with h | ⟨_, hd, -⟩
    · exact h
    · cases hd
  | cons d decls ih =>
    have hextend : (Γ.extend d).lookup x = (Γ'.extend d).lookup x ∨ ∃ d' ∈ decls, d'.name = x := by
      rw [lookup_extend, lookup_extend]
      by_cases hd : d.name = x
      · rw [if_pos hd, if_pos hd]
        exact Or.inl rfl
      · rw [if_neg hd, if_neg hd]
        rcases h with h | ⟨d', hmem, hx⟩
        · exact Or.inl h
        · rcases List.mem_cons.1 hmem with rfl | hmem
          · exact absurd hx hd
          · exact Or.inr ⟨d', hmem, hx⟩
    exact ih hextend

/-- What follows from a statement that passes can be read off the statement: it leaves its scope with the declarations on its
spine, and returns if its form shows it. -/
theorem Stmt.outcome_of_check {g : Globals} {returnType : Ty} {s : Stmt} {inLoop : Bool} {Γ : Scope} {o : Outcome}
    (h : (s.check g returnType inLoop Γ).result = .ok o) : o = ⟨Γ.extendAll s.spine, s.alwaysReturns⟩ := by
  induction s generalizing inLoop Γ o with
  | expr value =>
    simp only [result_check_expr, Check.bind_eq_ok_iff] at h
    obtain ⟨_, -, ho⟩ := h
    cases ho
    rfl
  | declare decl init =>
    rw [result_check_declare] at h
    by_cases hv : decl.ty.isVoid = true
    · rw [if_pos hv] at h
      cases h
    · simp only [if_neg hv, Check.bind_eq_ok_iff] at h
      obtain ⟨_, -, _, -, ho⟩ := h
      cases ho
      rfl
  | assign target value =>
    simp only [result_check_assign, Check.bind_eq_ok_iff] at h
    obtain ⟨_, -, _, -, _, -, ho⟩ := h
    cases ho
    rfl
  | ifElse condition thenBranch elseBranch ihThen ihElse =>
    -- what the branches declare is dropped with their outcomes
    simp only [result_check_ifElse, Check.bind_eq_ok_iff] at h
    obtain ⟨_, -, o₁, h₁, o₂, h₂, ho⟩ := h
    cases ho
    rw [ihThen h₁, ihElse h₂]
    rfl
  | whileDo condition body ih =>
    simp only [result_check_whileDo, Check.bind_eq_ok_iff] at h
    obtain ⟨_, -, _, -, ho⟩ := h
    cases ho
    rfl
  | breakLoop =>
    rw [result_check_breakLoop] at h
    cases inLoop <;> cases h
    rfl
  | continueLoop =>
    rw [result_check_continueLoop] at h
    cases inLoop <;> cases h
    rfl
  | returnVoid =>
    simp only [result_check_returnVoid, Check.bind_eq_ok_iff] at h
    obtain ⟨_, -, ho⟩ := h
    cases ho
    rfl
  | returnValue value =>
    simp only [result_check_returnValue, Check.bind_eq_ok_iff] at h
    obtain ⟨_, -, _, -, ho⟩ := h
    cases ho
    rfl
  | free pointer =>
    simp only [result_check_free, Check.bind_eq_ok_iff] at h
    obtain ⟨_, -, ho⟩ := h
    cases ho
    rfl
  | seq first second ihFirst ihSecond =>
    obtain ⟨o₁, h₁, -, h₂⟩ := result_check_seq_eq_ok_iff.1 h
    rw [ihSecond h₂, ihFirst h₁, spine, alwaysReturns, Scope.extendAll_append]

/-- A statement that passes leaves its scope with the declarations on its spine. -/
theorem Stmt.scope_of_check {g : Globals} {returnType : Ty} {s : Stmt} {inLoop : Bool} {Γ : Scope} {o : Outcome}
    (h : (s.check g returnType inLoop Γ).result = .ok o) : o.scope = Γ.extendAll s.spine := by
  rw [Stmt.outcome_of_check h]

/-- What is in scope in front of a statement that passes is in scope behind it. -/
theorem Stmt.mem_scope_of_check {g : Globals} {returnType : Ty} {s : Stmt} {inLoop : Bool} {Γ : Scope} {o : Outcome}
    (h : (s.check g returnType inLoop Γ).result = .ok o) {x : VarName} (hx : x ∈ Γ) : x ∈ o.scope := by
  rw [Stmt.scope_of_check h, Scope.mem_extendAll_iff]
  exact Or.inl hx

/-- Exactly the declarations on the spine of a statement are seen behind it. What a statement that passes leaves is its scope
extended with them from left to right: nothing gets out of the branches of an `if` or out of the body of a loop, a variable
that is declared on the spine has the type of its last declaration there, and every other variable has what it had in front
of the statement, be it declared in a branch or not. -/
theorem Stmt.check_scope_exact (g : Globals) (returnType : Ty) (inLoop : Bool) (Γ : Scope) (s : Stmt) (o : Outcome)
    (h : (s.check g returnType inLoop Γ).result = .ok o) :
    o.scope = Γ.extendAll s.spine ∧
    (∀ condition thenBranch elseBranch, s = .ifElse condition thenBranch elseBranch → o.scope = Γ) ∧
    (∀ condition body, s = .whileDo condition body → o.scope = Γ) ∧
    (∀ before d behind, s.spine = before ++ d :: behind → (∀ d' ∈ behind, d'.name ≠ d.name) →
      o.scope.lookup d.name = .ok d.ty) ∧
    ∀ x, (∀ d ∈ s.spine, d.name ≠ x) → o.scope.lookup x = Γ.lookup x := by
  have hscope := Stmt.scope_of_check h
  refine ⟨hscope, ?_, ?_, ?_, ?_⟩
  · intro condition thenBranch elseBranch hs
    subst hs
    exact hscope
  · intro condition body hs
    subst hs
    exact hscope
  · intro before d behind hspine hlast
    rw [hscope, hspine]
    exact Γ.lookup_extendAll_of_last hlast
  · intro x hx
    rw [hscope]
    exact Scope.lookup_extendAll_of_forall_ne hx

namespace ScopesAux

/-- A statement that declares a variable twice, with an `if` in between whose branches declare the same variable and another
one. -/
def twiceDeclared : Stmt :=
  .seq
    (.seq (.declare ⟨.int, ⟨"x"⟩⟩ (.int 1))
      (.ifElse (.bool true) (.declare ⟨.bool, ⟨"x"⟩⟩ (.bool true)) (.declare ⟨.int, ⟨"y"⟩⟩ (.var ⟨"x"⟩))))
    (.declare ⟨.char, ⟨"x"⟩⟩ (.char 'c'))

end ScopesAux

open ScopesAux

/-- Behind this statement the variable has its second type, and the one that only a branch declares keeps the type it had in
front. -/
theorem Stmt.check_scope_exact_twice :
    ∃ o, (twiceDeclared.check {} .void false (Scope.ofParams [⟨.bool, ⟨"y"⟩⟩])).result = .ok o ∧
      o.scope.lookup ⟨"x"⟩ = .ok .char ∧ o.scope.lookup ⟨"y"⟩ = .ok .bool := by
  obtain ⟨-, -, -, hlast, hother⟩ :=
    Stmt.check_scope_exact {} .void false (Scope.ofParams [⟨.bool, ⟨"y"⟩⟩]) twiceDeclared _ rfl
  refine ⟨_, rfl, hlast [⟨.int, ⟨"x"⟩⟩] ⟨.char, ⟨"x"⟩⟩ [] rfl ?_, hother ⟨"y"⟩ ?_⟩
  · intro d hd
    cases hd
  · decide

end CoreC
