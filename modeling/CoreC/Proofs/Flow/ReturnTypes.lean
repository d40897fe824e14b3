import CoreC.Proofs.Typing.Scopes
import CoreC.Proofs.Typing.Sequences

/-!
# The return type of a body

The return type of a function is declared, yet its body leaves no choice. Run for two return types, the check meets the same
`return`s in the same scopes: what a statement leaves behind does not depend on the return type. So if a body with a `return`
in it passes for both, the two types are the same; and a body without one passes as a whole only for `void`.
-/

namespace CoreC

namespace ReturnTypesAux

variable {g : Globals} {returnType returnType' : Ty}

/-! ## Statements without a `return` -/

/-- A statement without a `return` has one check for all return types. -/
theorem check_eq_of_noReturn {s : Stmt} (hs : s.NoReturn) (inLoop : Bool) (Γ : Scope) :
    s.check g returnType inLoop Γ = s.check g returnType' inLoop Γ := by
  induction s generalizing inLoop Γ with
  | returnVoid => exact absurd (Stmt.mem_nodes_self _) hs.1
  | returnValue value => exact absurd (Stmt.mem_nodes_self _) (hs.2 value)
  | ifElse condition thenBranch elseBranch ihThen ihElse =>
    have hthen := ihThen (hs.of_mem_parts List.mem_cons_self) inLoop Γ
    have helse := ihElse (hs.of_mem_parts (List.mem_cons_of_mem _ List.mem_cons_self)) inLoop Γ
    rw [Stmt.check, Stmt.check, hthen, helse]
  | whileDo condition body ih =>
    have hbody := ih (hs.of_mem_parts List.mem_cons_self) true Γ
    rw [Stmt.check, Stmt.check, hbody]
  | seq first second ihFirst ihSecond =>
    have hfirst := ihFirst (hs.of_mem_parts List.mem_cons_self) inLoop Γ
    have hsecond := ihSecond (hs.of_mem_parts (List.mem_cons_of_mem _ List.mem_cons_self)) inLoop
    rw [SequencesAux.check_seq, SequencesAux.check_seq, hfirst]
    congr 1
    funext o
    rw [Stmt.checkNext, Stmt.checkNext, hsecond]
  | _ => rfl

/-- A statement without a `return` is never said to return. -/
theorem returns_eq_false_of_noReturn {s : Stmt} (hs : s.NoReturn) {inLoop : Bool} {Γ : Scope} {o : Outcome}
    (h : (s.check g returnType inLoop Γ).result = .ok o) : o.returns = false := by
  rw [Stmt.outcome_of_check h]
  exact hs.alwaysReturns_eq_false

/-! ## Two return types -/

/-- A part of a statement is checked in one place, whatever the return type is. -/
theorem exists_site_of_mem_parts {s part : Stmt} (hpart : part ∈ s.parts) (inLoop : Bool) (Γ : Scope) :
    ∃ inLoop₁ Γ₁, ∀ returnType o, (s.check g returnType inLoop Γ).result = .ok o →
      ∃ o₁, (part.check g returnType inLoop₁ Γ₁).result = .ok o₁ := by
  cases s with
  | ifElse condition thenBranch elseBranch =>
    refine ⟨inLoop, Γ, ?_⟩
    intro returnType o h
    simp only [Stmt.result_check_ifElse, Check.bind_eq_ok_iff] at h
    obtain ⟨_, -, o₁, hthen, o₂, helse, -⟩ := h
    rcases List.mem_cons.1 hpart with rfl | hpart
    · exact ⟨o₁, hthen⟩
    · rw [List.mem_singleton.1 hpart]
      exact ⟨o₂, helse⟩
  | whileDo condition body =>
    refine ⟨true, Γ, ?_⟩
    intro returnType o h
    simp only [Stmt.result_check_whileDo, Check.bind_eq_ok_iff] at h
    obtain ⟨_, -, o₁, hbody, -⟩ := h
    rw [List.mem_singleton.1 hpart]
    exact ⟨o₁, hbody⟩
  | seq first second =>
    rcases List.mem_cons.1 hpart with rfl | hpart
    · refine ⟨inLoop, Γ, ?_⟩
      intro returnType o h
      obtain ⟨o₁, hfirst, -, -⟩ := Stmt.result_check_seq_eq_ok_iff.1 h
      exact ⟨o₁, hfirst⟩
    · -- the scope that the first statement leaves is the one its declarations make
      refine ⟨inLoop, Γ.extendAll first.spine, ?_⟩
      intro returnType o h
      obtain ⟨o₁, hfirst, -, hsecond⟩ := Stmt.result_check_seq_eq_ok_iff.1 h
      rw [Stmt.scope_of_check hfirst] at hsecond
      rw [List.mem_singleton.1 hpart]
      exact ⟨o, hsecond⟩
  | _ => cases hpart

/-- Every statement in a statement is checked in one place, whatever the return type is. -/
theorem exists_site_of_mem_nodes {s t : Stmt} (ht : .stmt t ∈ s.nodes) (inLoop : Bool) (Γ : Scope) :
    ∃ inLoop₁ Γ₁, ∀ returnType o, (s.check g returnType inLoop Γ).result = .ok o →
      ∃ o₁, (t.check g returnType inLoop₁ Γ₁).result = .ok o₁ := by
  induction s using Stmt.induction_on_parts generalizing inLoop Γ with
  | step s ih =>
    rcases Stmt.stmt_mem_nodes_iff.1 ht with rfl | ⟨part, hpart, ht⟩
    · exact ⟨inLoop, Γ, fun _ o h => ⟨o, h⟩⟩
    · obtain ⟨inLoop₁, Γ₁, hsite⟩ := exists_site_of_mem_parts hpart inLoop Γ
      obtain ⟨inLoop₂, Γ₂, hsite'⟩ := ih part hpart ht inLoop₁ Γ₁
      refine ⟨inLoop₂, Γ₂, ?_⟩
      intro returnType o h
      obtain ⟨o₁, h₁⟩ := hsite returnType o h
      exact hsite' returnType o₁ h₁

/-- A `return` passes for one type only. -/
theorem returnType_eq_of_returnVoid {inLoop : Bool} {Γ : Scope} {o : Outcome}
    (h : (Stmt.returnVoid.check g returnType inLoop Γ).result = .ok o) : returnType = .void := by
  simp only [Stmt.result_check_returnVoid, Check.bind_eq_ok_iff, Ty.expect_eq_ok_iff] at h
  obtain ⟨_, hvoid, -⟩ := h
  exact hvoid

/-- A `return` of a value passes for the type of the value only. -/
theorem typeOf_of_returnValue {value : Expr} {inLoop : Bool} {Γ : Scope} {o : Outcome}
    (h : ((Stmt.returnValue value).check g returnType inLoop Γ).result = .ok o) :
    (value.typeOf g Γ).result = .ok returnType := by
  simp only [Stmt.result_check_returnValue, Check.bind_eq_ok_iff, Ty.expect_eq_ok_iff] at h
  obtain ⟨T, hvalue, _, hT, -⟩ := h
  rw [hT, hvalue]

/-- A statement that passes for two different return types has no `return` in it. -/
theorem noReturn_of_ne {s : Stmt} {inLoop : Bool} {Γ : Scope} {o o' : Outcome}
    (h : (s.check g returnType inLoop Γ).result = .ok o) (h' : (s.check g returnType' inLoop Γ).result = .ok o')
    (hne : returnType ≠ returnType') : s.NoReturn := by
  constructor
  · intro hmem
    obtain ⟨_, _, hsite⟩ := exists_site_of_mem_nodes hmem inLoop Γ
    obtain ⟨_, h₁⟩ := hsite returnType o h
    obtain ⟨_, h₁'⟩ := hsite returnType' o' h'
    have hvoid : returnType = .void := returnType_eq_of_returnVoid h₁
    have hvoid' : returnType' = .void := returnType_eq_of_returnVoid h₁'
    exact hne (hvoid.trans hvoid'.symm)
  · intro value hmem
    obtain ⟨_, _, hsite⟩ := exists_site_of_mem_nodes hmem inLoop Γ
    obtain ⟨_, h₁⟩ := hsite returnType o h
    obtain ⟨_, h₁'⟩ := hsite returnType' o' h'
    have htypes := (typeOf_of_returnValue h₁).symm.trans (typeOf_of_returnValue h₁')
    exact hne (Except.ok.inj htypes)

/-- The body of a function that passes does so by itself, and returns if there is a value to return. -/
theorem exists_outcome_of_check {f : FunDef} (h : (f.check g).result = .ok ()) :
    ∃ o, (f.body.check g f.returnType false (Scope.ofParams f.params)).result = .ok o ∧
      (f.returnType ≠ .void → o.returns = true) := by
  rw [FunDef.result_check, Check.bind_eq_ok_iff] at h
  obtain ⟨o, ho, hend⟩ := h
  refine ⟨o, ho, ?_⟩
  intro hT
  cases hreturns : o.returns with
  | true => rfl
  | false => simp [hreturns, Ty.isVoid_eq_false_iff.2 hT] at hend

/-- A function that passes without a `return` in its body returns nothing. -/
theorem returnType_eq_void_of_noReturn {f : FunDef} (hbody : f.body.NoReturn) (h : (f.check g).result = .ok ()) :
    f.returnType = .void := by
  obtain ⟨o, ho, hend⟩ := exists_outcome_of_check h
  have hreturns : o.returns = false := returns_eq_false_of_noReturn hbody ho
  by_cases hT : f.returnType = .void
  · exact hT
  · rw [hend hT] at hreturns
    cases hreturns

end ReturnTypesAux

open ReturnTypesAux

/-- A body has at most one return type. Two functions with the same parameters and the same body that pass against the same
tables return the same type. What decides are the `return`s: a statement without any has one check, result and log, for all
return types, and is never said to return. -/
theorem FunDef.returnType_unique (g : Globals) :
    (∀ f f' : FunDef, f.params = f'.params → f.body = f'.body → (f.check g).result = .ok () →
      (f'.check g).result = .ok () → f.returnType = f'.returnType) ∧
    ∀ s : Stmt, s.NoReturn → ∀ (inLoop : Bool) (Γ : Scope),
      (∀ returnType returnType', s.check g returnType inLoop Γ = s.check g returnType' inLoop Γ) ∧
      ∀ returnType o, (s.check g returnType inLoop Γ).result = .ok o → o.returns = false := by
  constructor
  · intro f f' hparams hbody h h'
    obtain ⟨o, ho, -⟩ := exists_outcome_of_check h
    obtain ⟨o', ho', -⟩ := exists_outcome_of_check h'
    rw [← hparams, ← hbody] at ho'
    by_cases heq : f.returnType = f'.returnType
    · exact heq
    · have hnone : f.body.NoReturn := noReturn_of_ne ho ho' heq
      have hnone' : f'.body.NoReturn := hbody ▸ hnone
      have hvoid : f.returnType = .void := returnType_eq_void_of_noReturn hnone h
      have hvoid' : f'.returnType = .void := returnType_eq_void_of_noReturn hnone' h'
      rw [hvoid, hvoid']
  · intro s hs inLoop Γ
    constructor
    · intro returnType returnType'
      exact check_eq_of_noReturn hs inLoop Γ
    · intro returnType o h
      exact returns_eq_false_of_noReturn hs h

namespace ReturnTypesAux

/-- A loop that may return, and a `return` behind it. -/
def returnTwice : Stmt :=
  .seq (.whileDo (.bool true) (.ifElse (.bool false) (.returnValue (.var ⟨"n"⟩)) .breakLoop)) (.returnValue (.int 1))

/-- A function of a given name that has this body. -/
def returnsInt (name : FunName) : FunDef where
  returnType := .int
  name := name
  params := [⟨.int, ⟨"n"⟩⟩]
  body := returnTwice

/-- A loop without a `return`. -/
def onlyBreaks : Stmt :=
  .whileDo (.bool true) (.seq (.declare ⟨.int, ⟨"x"⟩⟩ (.int 1)) .breakLoop)

end ReturnTypesAux

/-- Two functions with one body, and a loop without a `return`. -/
theorem FunDef.returnType_unique_twice :
    ((returnsInt ⟨"f"⟩).check {}).result = .ok () ∧ ((returnsInt ⟨"g"⟩).check {}).result = .ok () ∧
      (returnsInt ⟨"f"⟩).returnType = (returnsInt ⟨"g"⟩).returnType ∧
      onlyBreaks.check {} .int false ∅ = onlyBreaks.check {} .void false ∅ ∧
      ∃ o, (onlyBreaks.check {} .int false ∅).result = .ok o ∧ o.returns = false := by
  obtain ⟨hunique, hnone⟩ := FunDef.returnType_unique {}
  have hf : ((returnsInt ⟨"f"⟩).check {}).result = .ok () := rfl
  have hg : ((returnsInt ⟨"g"⟩).check {}).result = .ok () := rfl
  have hbreaks : onlyBreaks.NoReturn := by
    constructor <;> simp [onlyBreaks, Stmt.nodes, Expr.nodes]
  obtain ⟨hsame, hreturns⟩ := hnone onlyBreaks hbreaks false ∅
  exact ⟨hf, hg, hunique _ _ rfl rfl hf hg, hsame .int .void, _, rfl, hreturns .int _ rfl⟩

end CoreC
