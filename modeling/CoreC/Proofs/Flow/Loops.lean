import CoreC.Proofs.Typing.Faults
import CoreC.Proofs.Typing.Sequences
import CoreC.Proofs.Typing.Sites

/-!
# Inside and outside of loops

A statement is checked inside a loop or outside of one. The two checks differ in one thing only: outside, a `break` or a
`continue` that is in no loop of the statement itself is a fault (`TypeError.Stray`). The check outside runs in step with the
check inside until it meets one (`Check.SameUnlessStray`), so it is the same check, result and log, or it stops there; and
whether there is one to be met can be read off the statement (`Stmt.NoStray`).
-/

namespace CoreC

/-- The faults of a `break` or a `continue` outside of loops. -/
def TypeError.Stray : TypeError → Prop
  | .breakOutsideLoop | .continueOutsideLoop => True
  | _ => False

/-- The first check is the second one, or it fails at a stray `break` or `continue`. -/
def Check.SameUnlessStray {α : Type} (x y : Check α) : Prop :=
  x = y ∨ ∃ e, e.Stray ∧ x.result = .error e

namespace Check

variable {α β : Type}

theorem SameUnlessStray.refl (x : Check α) : x.SameUnlessStray x :=
  Or.inl rfl

/-- Two chains run in step as long as their links do. -/
theorem SameUnlessStray.bind {x y : Check α} {f f' : α → Check β} (hx : x.SameUnlessStray y)
    (hf : ∀ a, (f a).SameUnlessStray (f' a)) : (x >>= f).SameUnlessStray (y >>= f') := by
  rcases hx with rfl | ⟨e, he, hx⟩
  · cases hr : x.result with
    | ok a =>
      rcases hf a with hfa | ⟨e, he, hfa⟩
      · refine Or.inl (Check.ext ?_ ?_)
        · simp only [Check.log_bind, hr, hfa]
        · simp only [Check.result_bind, hr, Check.ok_bind, hfa]
      · refine Or.inr ⟨e, he, ?_⟩
        rw [Check.result_bind, hr, Check.ok_bind, hfa]
    | error e =>
      -- what fails in both runs has no second link in either
      refine Or.inl (Check.ext ?_ ?_)
      · simp only [Check.log_bind, hr]
      · simp only [Check.result_bind, hr, Check.error_bind]
  · refine Or.inr ⟨e, he, ?_⟩
    rw [Check.result_bind, hx, Check.error_bind]

end Check

namespace LoopsAux

/-- The check outside of loops runs in step with the check inside a loop. -/
theorem check_sameUnlessStray (g : Globals) (returnType : Ty) (Γ : Scope) (s : Stmt) :
    (s.check g returnType false Γ).SameUnlessStray (s.check g returnType true Γ) := by
  induction s generalizing Γ with
  | breakLoop => exact Or.inr ⟨.breakOutsideLoop, trivial, rfl⟩
  | continueLoop => exact Or.inr ⟨.continueOutsideLoop, trivial, rfl⟩
  | ifElse condition thenBranch elseBranch ihThen ihElse =>
    rw [Stmt.check, Stmt.check]
    refine (Check.SameUnlessStray.refl _).bind fun _ => (ihThen Γ).bind fun _ => (ihElse Γ).bind fun _ => ?_
    exact .refl _
  | seq first second ihFirst ihSecond =>
    rw [SequencesAux.check_seq, SequencesAux.check_seq]
    refine (ihFirst Γ).bind fun o => ?_
    cases ho : o.returns with
    | true =>
      rw [SequencesAux.checkNext_of_returns ho, SequencesAux.checkNext_of_returns ho]
      exact .refl _
    | false =>
      rw [SequencesAux.checkNext_of_not_returns ho, SequencesAux.checkNext_of_not_returns ho]
      exact ihSecond o.scope
  | _ =>
    -- a loop checks its body inside of it, wherever it stands, and the others have no statement in them
    exact .refl _

variable {g : Globals} {returnType : Ty}

/-- Inside a loop nothing is reported as stray. -/
theorem not_stray_inside {s : Stmt} {Γ : Scope} {e : TypeError} (h : (s.check g returnType true Γ).result = .error e) :
    ¬e.Stray := by
  -- of the statements that no loop is around there is none
  have hu : true = false → s.unlooped ⊆ [] := fun htrue => absurd htrue Bool.true_eq_false.mp
  have hfault : e.OfStmt g returnType Γ s.nodes [] := Faults.only_check s (fun _ hx => hx) (List.Subset.refl _) hu e h
  intro hstray
  cases e with
  | breakOutsideLoop => exact List.not_mem_nil hfault
  | continueOutsideLoop => exact List.not_mem_nil hfault
  | _ => exact hstray

/-- What is reported as stray is so. -/
theorem not_stray_of_noStray {s : Stmt} (hs : s.NoStray) {inLoop : Bool} {Γ : Scope} {e : TypeError}
    (h : (s.check g returnType inLoop Γ).result = .error e) : ¬e.Stray := by
  have hfault := Faults.ofStmt_of_check h
  intro hstray
  cases e with
  | breakOutsideLoop => exact hs.1 hfault
  | continueOutsideLoop => exact hs.2 hfault
  | _ => exact hstray

/-- A statement that passes outside of loops has no stray `break` and no stray `continue`. -/
theorem noStray_of_passes {s : Stmt} {Γ : Scope} {o : Outcome} (h : (s.check g returnType false Γ).result = .ok o) :
    s.NoStray := by
  constructor
  · intro hbreak
    obtain ⟨Γ', o', hpasses⟩ := Stmt.Site.exists_passes_of_mem_unlooped h hbreak
    rw [Stmt.result_check_breakLoop] at hpasses
    cases hpasses
  · intro hcontinue
    obtain ⟨Γ', o', hpasses⟩ := Stmt.Site.exists_passes_of_mem_unlooped h hcontinue
    rw [Stmt.result_check_continueLoop] at hpasses
    cases hpasses

end LoopsAux

open LoopsAux

/-- Whether a statement is inside a loop decides about stray `break`s and `continue`s and about nothing else. Inside a loop
none is reported. Outside, the check is the same as inside, result and log, or it fails with such a report; it is the same if
every `break` and `continue` is in a loop of the statement, and if the statement passes, every one is. -/
theorem Stmt.check_inLoop_exact (g : Globals) (returnType : Ty) (Γ : Scope) (s : Stmt) :
    ((s.check g returnType true Γ).result ≠ .error .breakOutsideLoop ∧
      (s.check g returnType true Γ).result ≠ .error .continueOutsideLoop) ∧
    (s.check g returnType false Γ = s.check g returnType true Γ ∨
      (s.check g returnType false Γ).result = .error .breakOutsideLoop ∨
      (s.check g returnType false Γ).result = .error .continueOutsideLoop) ∧
    (s.NoStray → s.check g returnType false Γ = s.check g returnType true Γ) ∧
    ((∃ o, (s.check g returnType false Γ).result = .ok o) → s.NoStray) := by
  refine ⟨?_, ?_, ?_, ?_⟩
  · constructor
    · intro h
      exact not_stray_inside h trivial
    · intro h
      exact not_stray_inside h trivial
  · rcases check_sameUnlessStray g returnType Γ s with heq | ⟨e, he, h⟩
    · exact Or.inl heq
    · cases e with
      | breakOutsideLoop => exact Or.inr (Or.inl h)
      | continueOutsideLoop => exact Or.inr (Or.inr h)
      | _ => exact he.elim
  · intro hs
    rcases check_sameUnlessStray g returnType Γ s with heq | ⟨e, he, h⟩
    · exact heq
    · exact absurd he (not_stray_of_noStray hs h)
  · rintro ⟨o, h⟩
    exact noStray_of_passes h

namespace LoopsAux

/-- A loop that is left by a `break` in one branch, with a fault behind it. -/
def brokenLoop : Stmt :=
  .seq (.whileDo (.bool true) (.ifElse (.bool false) .breakLoop .continueLoop)) (.expr (.deref (.int 1)))

end LoopsAux

/-- The `break` and the `continue` of a loop are in it, so the fault behind the loop is found outside of loops as it is inside
of one; and a loop that passes has no stray ones. -/
theorem Stmt.check_inLoop_exact_loop :
    brokenLoop.NoStray ∧ (brokenLoop.check {} .void false ∅).result = .error (.notAPointer .int) ∧
      (Stmt.whileDo (.bool true) .breakLoop).NoStray := by
  obtain ⟨-, -, -, hpasses⟩ := Stmt.check_inLoop_exact {} .void ∅ (.whileDo (.bool true) .breakLoop)
  obtain ⟨-, -, hsame, -⟩ := Stmt.check_inLoop_exact {} .void ∅ brokenLoop
  have hstray : brokenLoop.NoStray := by
    constructor <;> simp [brokenLoop, Stmt.unlooped]
  refine ⟨hstray, ?_, hpasses ⟨_, rfl⟩⟩
  rw [hsame hstray]
  rfl

end CoreC
