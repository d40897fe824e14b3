import CoreC.Program

/-!
# Paths through a statement

The ways control can go through a statement when nothing is known about the values it meets: an `if` takes either branch,
a loop runs its body any number of times, none included. A path that comes to an end leaves the statement in one of four
ways (`Exit`); `Stmt.Ends s x` says that some path through `s` ends in `x`.
-/

namespace CoreC

/-- How a path leaves a statement: at its end, or by a `break`, a `continue` or a `return` that has not taken effect yet. -/
inductive Exit where
  | normal
  | breaks
  | continues
  | returns
  deriving DecidableEq, Repr

/-- Some path through the statement ends in this way. A `break` or a `continue` acts on the nearest loop around it. -/
inductive Stmt.Ends : Stmt → Exit → Prop where
  | expr (value : Expr) : Ends (.expr value) .normal
  | declare (decl : Decl .var) (init : Expr) : Ends (.declare decl init) .normal
  | assign (target : Place) (value : Expr) : Ends (.assign target value) .normal
  | free (pointer : Expr) : Ends (.free pointer) .normal
  | ifThen (condition : Expr) {thenBranch : Stmt} (elseBranch : Stmt) {x : Exit} :
      Ends thenBranch x → Ends (.ifElse condition thenBranch elseBranch) x
  | ifElse (condition : Expr) (thenBranch : Stmt) {elseBranch : Stmt} {x : Exit} :
      Ends elseBranch x → Ends (.ifElse condition thenBranch elseBranch) x
  | loopDone (condition : Expr) (body : Stmt) : Ends (.whileDo condition body) .normal
  | loopNormal {condition : Expr} {body : Stmt} {x : Exit} :
      Ends body .normal → Ends (.whileDo condition body) x → Ends (.whileDo condition body) x
  | loopContinue {condition : Expr} {body : Stmt} {x : Exit} :
      Ends body .continues → Ends (.whileDo condition body) x → Ends (.whileDo condition body) x
  | loopBreak (condition : Expr) {body : Stmt} : Ends body .breaks → Ends (.whileDo condition body) .normal
  | loopReturn (condition : Expr) {body : Stmt} : Ends body .returns → Ends (.whileDo condition body) .returns
  | breakLoop : Ends .breakLoop .breaks
  | continueLoop : Ends .continueLoop .continues
  | returnVoid : Ends .returnVoid .returns
  | returnValue (value : Expr) : Ends (.returnValue value) .returns
  | seqNormal {first second : Stmt} {x : Exit} : Ends first .normal → Ends second x → Ends (.seq first second) x
  | seqExit {first : Stmt} (second : Stmt) {x : Exit} : Ends first x → x ≠ .normal → Ends (.seq first second) x

namespace Stmt

/-! ## How the paths of a compound statement are made -/

theorem ends_ifElse_iff {condition : Expr} {thenBranch elseBranch : Stmt} {x : Exit} :
    Ends (.ifElse condition thenBranch elseBranch) x ↔ thenBranch.Ends x ∨ elseBranch.Ends x := by
  refine ⟨fun h => ?_, fun h => ?_⟩
  · cases h with
    | ifThen _ _ h => exact Or.inl h
    | ifElse _ _ h => exact Or.inr h
  · rcases h with h | h
    · exact .ifThen condition elseBranch h
    · exact .ifElse condition thenBranch h

theorem ends_seq_iff {first second : Stmt} {x : Exit} :
    Ends (.seq first second) x ↔ (first.Ends .normal ∧ second.Ends x) ∨ (first.Ends x ∧ x ≠ .normal) := by
  refine ⟨fun h => ?_, fun h => ?_⟩
  · cases h with
    | seqNormal h₁ h₂ => exact Or.inl ⟨h₁, h₂⟩
    | seqExit _ h hx => exact Or.inr ⟨h, hx⟩
  · rcases h with ⟨h₁, h₂⟩ | ⟨h, hx⟩
    · exact .seqNormal h₁ h₂
    · exact .seqExit second h hx

/-- A path leaves a loop at its end or by a `return`, whatever its body does. -/
theorem Ends.whileDo_cases {condition : Expr} {body : Stmt} {x : Exit} (h : Ends (.whileDo condition body) x) :
    x = .normal ∨ (x = .returns ∧ body.Ends .returns) := by
  generalize hs : Stmt.whileDo condition body = s at h
  induction h with
  | loopDone => exact Or.inl rfl
  | loopNormal _ _ _ ih => exact ih hs
  | loopContinue _ _ _ ih => exact ih hs
  | loopBreak => exact Or.inl rfl
  | loopReturn _ hb =>
    cases hs
    exact Or.inr ⟨rfl, hb⟩
  | _ => cases hs

end Stmt

end CoreC
