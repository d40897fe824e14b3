import CoreC.Proofs.Flow.Paths
import CoreC.Proofs.Tables
import CoreC.Proofs.Typing.Faults

/-!
# Returning on every path

The checker says of each statement whether it returns, from its form alone. Here that answer is compared with the paths
through the statement. It is not the whole truth inside a loop, where a statement that is said not to return may still not
reach its end (it breaks), so what is carried through the statement are three facts at once (`Flow.Answers`). At the level
of a function, which is outside any loop, they add up to an exact answer: `FunDef.check_missingReturn_exact`.
-/

namespace CoreC

namespace Flow

/-- What the answer about an accepted statement says about its paths: one that returns never reaches its end, one that
does not return can be left without a `return`, and outside a loop there is no stray `break` or `continue`. -/
structure Answers (s : Stmt) (inLoop returns : Bool) : Prop where
  noNormal : returns = true → ¬s.Ends .normal
  noReturn : returns = false → ∃ x, x ≠ .returns ∧ s.Ends x
  inside : inLoop = false → ∀ x, s.Ends x → x = .normal ∨ x = .returns

/-- A statement whose paths all reach its end. -/
theorem Answers.of_normal {s : Stmt} (h : s.Ends .normal) (hs : ∀ x, s.Ends x → x = .normal) (inLoop : Bool) :
    Answers s inLoop false :=
  ⟨nofun, fun _ => ⟨.normal, nofun, h⟩, fun _ x hx => Or.inl (hs x hx)⟩

/-- A statement whose paths all return. -/
theorem Answers.of_returns {s : Stmt} (hs : ∀ x, s.Ends x → x = .returns) (inLoop : Bool) : Answers s inLoop true :=
  ⟨fun _ h => absurd (hs _ h) nofun, nofun, fun _ x hx => Or.inr (hs x hx)⟩

theorem Answers.ifElse {condition : Expr} {s t : Stmt} {inLoop r₁ r₂ : Bool} (hs : Answers s inLoop r₁)
    (ht : Answers t inLoop r₂) : Answers (.ifElse condition s t) inLoop (r₁ && r₂) := by
  refine ⟨fun hr h => ?_, fun hr => ?_, fun hl x h => ?_⟩
  · obtain ⟨hr₁, hr₂⟩ := Bool.and_eq_true_iff.1 hr
    rcases Stmt.ends_ifElse_iff.1 h with h | h
    · exact hs.noNormal hr₁ h
    · exact ht.noNormal hr₂ h
  · rcases Bool.and_eq_false_iff.1 hr with hr | hr
    · obtain ⟨x, hx, h⟩ := hs.noReturn hr
      exact ⟨x, hx, .ifThen condition t h⟩
    · obtain ⟨x, hx, h⟩ := ht.noReturn hr
      exact ⟨x, hx, .ifElse condition s h⟩
  · rcases Stmt.ends_ifElse_iff.1 h with h | h
    · exact hs.inside hl x h
    · exact ht.inside hl x h

/-- A loop asks nothing of its body: it may run no time at all, and it takes every `break` and `continue`. -/
theorem Answers.whileDo (condition : Expr) (body : Stmt) (inLoop : Bool) :
    Answers (.whileDo condition body) inLoop false := by
  refine ⟨nofun, fun _ => ⟨.normal, nofun, .loopDone condition body⟩, fun _ x h => ?_⟩
  rcases h.whileDo_cases with hx | ⟨hx, -⟩
  · exact Or.inl hx
  · exact Or.inr hx

theorem Answers.seq {s t : Stmt} {inLoop r : Bool} (hs : Answers s inLoop false) (ht : Answers t inLoop r) :
    Answers (.seq s t) inLoop r := by
  refine ⟨fun hr h => ?_, fun hr => ?_, fun hl x h => ?_⟩
  · rcases Stmt.ends_seq_iff.1 h with ⟨-, h⟩ | ⟨-, hx⟩
    · exact ht.noNormal hr h
    · exact hx rfl
  · obtain ⟨x, hx, h⟩ := hs.noReturn rfl
    by_cases hn : x = .normal
    · subst hn
      obtain ⟨y, hy, h'⟩ := ht.noReturn hr
      exact ⟨y, hy, .seqNormal h h'⟩
    · exact ⟨x, hx, .seqExit t h hn⟩
  · rcases Stmt.ends_seq_iff.1 h with ⟨-, h⟩ | ⟨h, -⟩
    · exact ht.inside hl x h
    · exact hs.inside hl x h

/-- The checker's answer about a statement it accepts is right about its paths. -/
theorem answers_of_check {g : Globals} {returnType : Ty} {s : Stmt} {inLoop : Bool} {Γ : Scope} {o : Outcome}
    (h : (s.check g returnType inLoop Γ).result = .ok o) : Answers s inLoop o.returns := by
  induction s generalizing inLoop Γ o with
  | expr value =>
    obtain ⟨_, -, ho⟩ := Check.bind_eq_ok_iff.1 (Stmt.result_check_expr g returnType inLoop Γ value ▸ h)
    cases ho
    exact .of_normal (.expr value) (fun x hx => by cases hx; rfl) inLoop
  | declare decl init =>
    rw [Stmt.result_check_declare] at h
    split at h
    · cases h
    · obtain ⟨_, -, h⟩ := Check.bind_eq_ok_iff.1 h
      obtain ⟨_, -, ho⟩ := Check.bind_eq_ok_iff.1 h
      cases ho
      exact .of_normal (.declare decl init) (fun x hx => by cases hx; rfl) inLoop
  | assign target value =>
    rw [Stmt.result_check_assign] at h
    obtain ⟨_, -, h⟩ := Check.bind_eq_ok_iff.1 h
    obtain ⟨_, -, h⟩ := Check.bind_eq_ok_iff.1 h
    obtain ⟨_, -, ho⟩ := Check.bind_eq_ok_iff.1 h
    cases ho
    exact .of_normal (.assign target value) (fun x hx => by cases hx; rfl) inLoop
  | ifElse condition s t ihs iht =>
    rw [Stmt.result_check_ifElse] at h
    obtain ⟨_, -, h⟩ := Check.bind_eq_ok_iff.1 h
    obtain ⟨o₁, h₁, h⟩ := Check.bind_eq_ok_iff.1 h
    obtain ⟨o₂, h₂, ho⟩ := Check.bind_eq_ok_iff.1 h
    cases ho
    exact (ihs h₁).ifElse (iht h₂)
  | whileDo condition body ih =>
    rw [Stmt.result_check_whileDo] at h
    obtain ⟨_, -, h⟩ := Check.bind_eq_ok_iff.1 h
    obtain ⟨_, -, ho⟩ := Check.bind_eq_ok_iff.1 h
    cases ho
    exact .whileDo condition body inLoop
  | breakLoop =>
    rw [Stmt.result_check_breakLoop] at h
    split at h
    · rename_i hl
      cases h
      exact ⟨nofun, fun _ => ⟨.breaks, nofun, .breakLoop⟩, fun hl' => absurd (hl.symm.trans hl') nofun⟩
    · cases h
  | continueLoop =>
    rw [Stmt.result_check_continueLoop] at h
    split at h
    · rename_i hl
      cases h
      exact ⟨nofun, fun _ => ⟨.continues, nofun, .continueLoop⟩, fun hl' => absurd (hl.symm.trans hl') nofun⟩
    · cases h
  | returnVoid =>
    obtain ⟨_, -, ho⟩ := Check.bind_eq_ok_iff.1 (Stmt.result_check_returnVoid g returnType inLoop Γ ▸ h)
    cases ho
    exact .of_returns (fun x hx => by cases hx; rfl) inLoop
  | returnValue value =>
    rw [Stmt.result_check_returnValue] at h
    obtain ⟨_, -, h⟩ := Check.bind_eq_ok_iff.1 h
    obtain ⟨_, -, ho⟩ := Check.bind_eq_ok_iff.1 h
    cases ho
    exact .of_returns (fun x hx => by cases hx; rfl) inLoop
  | free pointer =>
    obtain ⟨_, -, ho⟩ := Check.bind_eq_ok_iff.1 (Stmt.result_check_free g returnType inLoop Γ pointer ▸ h)
    cases ho
    exact .of_normal (.free pointer) (fun x hx => by cases hx; rfl) inLoop
  | seq s t ihs iht =>
    obtain ⟨o₁, h₁, hr, h₂⟩ := Stmt.result_check_seq_eq_ok_iff.1 h
    have hs := ihs h₁
    rw [hr] at hs
    exact hs.seq (iht h₂)

/-- Outside any loop the answer is the whole truth: a statement is said not to return exactly if a path reaches its end. -/
theorem returns_eq_false_iff {g : Globals} {returnType : Ty} {s : Stmt} {Γ : Scope} {o : Outcome}
    (h : (s.check g returnType false Γ).result = .ok o) : o.returns = false ↔ s.Ends .normal := by
  have ha := answers_of_check h
  refine ⟨fun hr => ?_, fun hn => ?_⟩
  · obtain ⟨x, hx, he⟩ := ha.noReturn hr
    rcases ha.inside rfl x he with rfl | rfl
    · exact he
    · exact absurd rfl hx
  · rw [← Bool.not_eq_true]
    exact fun hr => ha.noNormal hr hn

/-- Outside any loop every path through a statement that is said to return ends in a `return`. -/
theorem ends_returns {g : Globals} {returnType : Ty} {s : Stmt} {Γ : Scope} {o : Outcome}
    (h : (s.check g returnType false Γ).result = .ok o) (hr : o.returns = true) {x : Exit} (hx : s.Ends x) :
    x = .returns := by
  have ha := answers_of_check h
  rcases ha.inside rfl x hx with rfl | rfl
  · exact absurd hx (ha.noNormal hr)
  · rfl

/-- A missing `return` is no fault of a statement. -/
theorem stmt_check_ne_missingReturn {g : Globals} {returnType T : Ty} {s : Stmt} {inLoop : Bool} {Γ : Scope}
    {name : FunName} : (s.check g returnType inLoop Γ).result ≠ .error (.missingReturn name T) :=
  fun h => Faults.ofStmt_of_check h

end Flow

/-- The return analysis of a function is exact. If the function passes and has a value to return, every path through its
body ends in a `return`; and a `return` is reported missing, for this function and its type, exactly if the body is accepted,
there is a value to return, and some path reaches the end of the body. -/
theorem FunDef.check_missingReturn_exact (g : Globals) (f : FunDef) :
    ((f.check g).result = .ok () → f.returnType ≠ .void → ∀ x, f.body.Ends x → x = .returns) ∧
    ∀ name T, (f.check g).result = .error (.missingReturn name T) ↔
      (name = f.name ∧ T = f.returnType) ∧
        (∃ o, (f.body.check g f.returnType false (Scope.ofParams f.params)).result = .ok o) ∧
        f.returnType ≠ .void ∧ f.body.Ends .normal := by
  rw [FunDef.result_check]
  refine ⟨fun h hT x hx => ?_, fun name T => ⟨fun h => ?_, fun h => ?_⟩⟩
  · obtain ⟨o, hb, hr⟩ := Check.bind_eq_ok_iff.1 h
    have hret : o.returns = true := by
      cases hn : o.returns with
      | true => rfl
      | false => simp [Ty.isVoid_eq_false_iff.2 hT, hn] at hr
    exact Flow.ends_returns hb hret hx
  · rcases Check.bind_eq_error_iff.1 h with h | ⟨o, hb, hr⟩
    · exact absurd h Flow.stmt_check_ne_missingReturn
    · split at hr
      · rename_i hc
        cases hr
        simp only [Bool.and_eq_true, Bool.not_eq_true'] at hc
        exact ⟨⟨rfl, rfl⟩, ⟨o, hb⟩, Ty.isVoid_eq_false_iff.1 hc.1, (Flow.returns_eq_false_iff hb).1 hc.2⟩
      · cases hr
  · obtain ⟨⟨rfl, rfl⟩, ⟨o, hb⟩, hT, hn⟩ := h
    rw [hb, Check.ok_bind, Ty.isVoid_eq_false_iff.2 hT, (Flow.returns_eq_false_iff hb).2 hn]
    rfl

namespace Flow

/-- A function that leaves a loop by a `break` and then returns. -/
def breakThenReturn : FunDef where
  returnType := .int
  name := ⟨"f"⟩
  params := []
  body := .seq (.whileDo (.bool true) .breakLoop) (.returnValue (.int 1))

/-- A function that returns in one branch only. -/
def returnInOneBranch : FunDef where
  returnType := .int
  name := ⟨"f"⟩
  params := []
  body := .ifElse (.bool true) (.returnValue (.int 1)) (.expr (.int 1))

end Flow

/-- Both halves at work: the first function passes and every path through it returns, the second is accepted up to the
end that one of its paths reaches. -/
theorem FunDef.check_missingReturn_exact_two :
    ((Flow.breakThenReturn.check {}).result = .ok () ∧ ∀ x, Flow.breakThenReturn.body.Ends x → x = .returns) ∧
      Flow.returnInOneBranch.body.Ends .normal ∧
      (Flow.returnInOneBranch.check {}).result = .error (.missingReturn ⟨"f"⟩ .int) := by
  have hn : Flow.returnInOneBranch.body.Ends .normal := .ifElse _ _ (.expr _)
  refine ⟨⟨rfl, (FunDef.check_missingReturn_exact {} Flow.breakThenReturn).1 rfl nofun⟩, hn, ?_⟩
  exact ((FunDef.check_missingReturn_exact {} Flow.returnInOneBranch).2 _ _).2 ⟨⟨rfl, rfl⟩, ⟨_, rfl⟩, nofun, hn⟩

end CoreC
